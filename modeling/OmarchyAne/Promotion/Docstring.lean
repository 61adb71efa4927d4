import OmarchyAne.Promotion.Entries
import OmarchyAne.Promotion.TreeFiles
import Mathlib.Data.List.Sort

/-!
# The opt-in enumeration

A flip writes the opt-in chips into the docstring of `packaging/omarchy-ane-dt`
(`editDtDocstring`), once as names and once as keys.  Cut at its commas and
its "and", the text gives the chips back when there are none or at least two
of them (`readsBack_iff`).  Of a single chip `join_names` gives the list, and
the docstring gets Python's text of a list.
-/

namespace OmarchyAne.Promotion

open Lib List

/-! ## The opt-in chips -/

section OptIn

variable {lines : List (Text × Text × Text)} {chip c : Text} {promote : Bool}

theorem mem_of_rowState {state : Text} (h : rowState lines c = some state) :
    c ∈ lines.map (·.1) := by
  obtain ⟨l, hl, -⟩ := mem_map.mp (mem_of_getLast? h)
  rw [mem_filter, decide_eq_true_eq] at hl
  exact mem_map.mpr ⟨l, hl.1, hl.2.1⟩

theorem mem_optInChips : c ∈ optInChips lines ↔ rowState lines c = some "opt-in".toList := by
  rw [optInChips, (sortBy_perm id _).mem_iff, mem_filter, mem_dedup, decide_eq_true_eq]
  exact and_iff_right_of_imp mem_of_rowState

theorem sortBy_id_strict {l : List Text} (h : l.Nodup) : (sortBy id l).Pairwise (· < ·) :=
  sortBy_strict id (by rwa [map_id])

theorem mem_optInAfter : c ∈ optInAfter lines chip promote ↔
    if promote then rowState lines c = some "opt-in".toList ∧ c ≠ chip
    else rowState lines c = some "opt-in".toList ∨ c = chip := by
  rw [optInAfter]
  split
  · rw [mem_filter, mem_optInChips, decide_eq_true_eq]
  · rw [(sortBy_perm id _).mem_iff, mem_dedup, mem_cons, mem_optInChips, or_comm]

theorem optInAfter_strict : (optInAfter lines chip promote).Pairwise (· < ·) := by
  rw [optInAfter]
  split
  · exact (sortBy_id_strict ((nodup_dedup _).filter _)).filter _
  · exact sortBy_id_strict (nodup_dedup _)

end OptIn

/-! ## Reading the enumeration -/

/-- The pieces between the commas and the "and". -/
def readNames (t : Text) : List Text :=
  (splitText " and ".toList t).flatMap (splitText ", ".toList)

/-- The text enumerates the names. -/
def ReadsBack (t : Text) (names : List Text) : Prop :=
  if names = [] then t = "none".toList else readNames t = names

/-- A name that no separator cuts. -/
def Uncut (name : Text) : Prop :=
  ' ' ∉ name ∧ ∃ x rest, name = x :: rest ∧ x ≠ 'a'

section Read

variable {u v w name : Text} {names : List Text}

theorem startsAfter_append {sep : Text} : StartsAfter sep u (w ++ v) → StartsAfter sep w v →
      StartsAfter sep (u ++ w) v := by
  intro hu hw
  induction u with
  | nil => exact hw
  | cons c u ih =>
    have hhead := hu.1
    rw [← append_assoc] at hhead
    exact ⟨hhead, ih hu.2⟩

/-- No comma of the name has a blank behind it. -/
theorem startsAfter_comma (h : ' ' ∉ u) (hv : v = [] ∨ ", ".toList <+: v) :
    StartsAfter ", ".toList u v := by
  induction u with
  | nil => trivial
  | cons c u ih =>
    rw [mem_cons, not_or] at h
    refine ⟨fun hpre => ?_, ih h.2⟩
    obtain ⟨-, hpre⟩ := cons_prefix_cons.mp hpre
    cases u with
    | nil =>
      obtain rfl | ⟨r, rfl⟩ := hv
      · cases prefix_nil.mp hpre
      · exact absurd (cons_prefix_cons.mp hpre).1 (by decide)
    | cons x u =>
      have hx := (cons_prefix_cons.mp hpre).1
      exact h.2 (hx ▸ mem_cons_self)

/-- Behind a comma comes no "and". -/
theorem startsAfter_and (h : ∀ n ∈ names, Uncut n) :
    StartsAfter " and ".toList (", ".toList.intercalate names) v := by
  induction names with
  | nil => trivial
  | cons n names ih =>
    rw [forall_mem_cons] at h
    cases names with
    | nil =>
      rw [intercalate_singleton]
      exact startsAfter_of_head h.1.1
    | cons n' names =>
      rw [intercalate_cons_cons]
      refine startsAfter_append (startsAfter_append (startsAfter_of_head h.1.1) ?_) (ih h.2)
      obtain ⟨-, x, rest, rfl, hx⟩ := (forall_mem_cons.mp h.2).1
      have hhead : ∃ r, ", ".toList.intercalate ((x :: rest) :: names) ++ v = x :: r := by
        cases names with
        | nil => exact ⟨_, rfl⟩
        | cons n names => exact ⟨_, rfl⟩
      obtain ⟨r, hr⟩ := hhead
      rw [hr]
      refine ⟨fun hpre => ?_, fun hpre => ?_, trivial⟩
      · exact absurd (cons_prefix_cons.mp hpre).1 (by decide)
      · have hpre := (cons_prefix_cons.mp hpre).2
        exact hx (cons_prefix_cons.mp hpre).1.symm

theorem splitText_comma (hne : names ≠ []) (h : ∀ n ∈ names, Uncut n) :
    splitText ", ".toList (", ".toList.intercalate names) = names :=
  splitText_intercalate (by decide) hne fun n hn _ hv =>
    startsAfter_comma (h n hn).1 hv

theorem readNames_join {last : Text} (hne : names ≠ [])
    (h : ∀ n ∈ names, Uncut n) (hlast : Uncut last) :
    readNames (", ".toList.intercalate names ++ (" and ".toList ++ last)) = names ++ [last] := by
  have hend := @splitText_intercalate " and ".toList (by decide) [last]
    (by simp) (by
      intro p hp v _
      rw [mem_singleton.mp hp]
      exact startsAfter_of_head hlast.1)
  have hcomma := @splitText_comma [last] (by simp) (by simpa using hlast)
  rw [intercalate_singleton] at hend hcomma
  rw [readNames, splitText_append (startsAfter_and h), splitText_sep (by decide), hend]
  simp only [modifyHead_cons, append_nil, flatMap_cons, flatMap_nil, hcomma, splitText_comma hne h]

/-- A text that is read as one name is that name. -/
theorem eq_of_readNames (h : readNames u = [name]) : u = name := by
  have hand := @intercalate_splitText " and ".toList (by decide) u
  obtain ⟨p, parts, hparts⟩ := exists_cons_of_ne_nil (@splitText_ne_nil " and ".toList u)
  obtain ⟨q, pieces, hpieces⟩ := exists_cons_of_ne_nil (@splitText_ne_nil ", ".toList p)
  have hcomma := @intercalate_splitText ", ".toList (by decide) p
  rw [readNames, hparts, flatMap_cons, hpieces, cons_append,
    List.cons.injEq, append_eq_nil_iff] at h
  obtain ⟨rfl, rfl, hrest⟩ := h
  have hone : parts = [] := by
    cases parts with
    | nil => rfl
    | cons p' parts =>
      rw [flatMap_cons, append_eq_nil_iff] at hrest
      exact absurd hrest.1 (splitText_ne_nil p')
  rw [hpieces, intercalate_singleton] at hcomma
  rw [hparts, hone, intercalate_singleton] at hand
  rw [← hand, ← hcomma]

/-- The joined names can be read if they are not one name. -/
theorem readsBack_iff {printable : Char → Bool} (h : ∀ n ∈ names, Uncut n) :
    ReadsBack ((joinNames names).show printable) names ↔ names.length ≠ 1 := by
  rw [joinNames]
  split
  · next hlen =>
    match names with
    | [] => exact iff_of_true rfl (by simp)
    | [n] =>
      refine iff_of_false ?_ (by simp)
      rw [ReadsBack, if_neg (cons_ne_nil _ _)]
      intro hread
      have hlen := congrArg List.length (eq_of_readNames hread)
      have hlt := length_lt_reprStr printable n
      simp only [Joined.show, map_cons, map_nil, intercalate_singleton, length_append] at hlen
      omega
    | _ :: _ :: _ => simp at hlen
  · next hlen =>
    have hne : names ≠ [] := fun hnil => hlen (by simp [hnil])
    have hsplit := dropLast_append_getLast hne
    have hinit : names.dropLast ≠ [] := by
      intro hnil
      have := congrArg List.length hnil
      simp at this
      omega
    have hread := readNames_join hinit (fun n hn => h n (dropLast_subset _ hn))
      (h _ (getLast_mem hne))
    refine iff_of_true ?_ (by omega)
    rw [ReadsBack, if_neg hne, getLast?_eq_getLast_of_ne_nil hne, Option.getD_some]
    have hshow : ∀ t : Text, t ≠ [] → (Joined.text t).show printable = t := by
      intro t ht
      cases t with
      | nil => exact absurd rfl ht
      | cons c t => rfl
    rw [hshow _ (by simp), hread, hsplit]

end Read

/-! ## The docstring after a flip -/

/-- An upper-case text has no "a", and no blank that was not there before. -/
theorem toUpper_cases (c : Char) : c.toUpper ≠ 'a' ∧ (c.toUpper = ' ' → c = ' ') := by
  delta Char.toUpper
  split
  · next h =>
    have hshift : ('A'.val - 'a'.val).toNat = 4294967264 := by decide
    have hlow : 97 ≤ c.val.toNat := UInt32.le_iff_toNat_le.mp h.1
    have hhigh : c.val.toNat ≤ 122 := UInt32.le_iff_toNat_le.mp h.2
    have hval : ∀ {d d' : Char}, d = d' → d.val.toNat = d'.val.toNat :=
      fun heq => congrArg (·.val.toNat) heq
    constructor
    · intro heq
      have heq := hval heq
      rw [UInt32.toNat_add, hshift] at heq
      have : ('a' : Char).val.toNat = 97 := rfl
      omega
    · intro heq
      have heq := hval heq
      rw [UInt32.toNat_add, hshift] at heq
      have : (' ' : Char).val.toNat = 32 := rfl
      omega
  · next h =>
    refine ⟨?_, id⟩
    rintro rfl
    exact h (by decide)

theorem upper_uncut {c : Text} (hne : c ≠ []) (h : ∀ x ∈ c, isSpace x = false) :
    Uncut (upper c) := by
  constructor
  · intro hmem
    obtain ⟨x, hx, heq⟩ := mem_map.mp hmem
    have hspace := h x hx
    rw [(toUpper_cases x).2 heq] at hspace
    exact absurd hspace (by decide)
  · obtain ⟨x, rest, rfl⟩ := exists_cons_of_ne_nil hne
    exact ⟨_, _, rfl, (toUpper_cases x).1⟩

theorem key_uncut {c : Text} (h : ∀ x ∈ c, isSpace x = false) :
    Uncut (quote ("ane-".toList ++ c)) := by
  refine ⟨fun hmem => ?_, _, _, rfl, by decide⟩
  have hmem : ' ' ∈ c := by simpa [quote] using hmem
  exact absurd (h _ hmem) (by decide)

/-- The chips of the enumeration are words. -/
theorem optInAfter_word {overlays chip : Text} {lines : List (Text × Text × Text)}
    (hlines : overlayLines overlays = some lines) (hchip : chip ∈ marketing)
    {promote : Bool} {c : Text} (hc : c ∈ optInAfter lines chip promote) :
    c ≠ [] ∧ ∀ x ∈ c, isSpace x = false := by
  have hcase : rowState lines c = some "opt-in".toList ∨ c = chip := by
    rw [mem_optInAfter] at hc
    split at hc
    · exact .inl hc.1
    · exact hc
  obtain hrow | rfl := hcase
  · obtain ⟨line, hline, rfl⟩ := mem_map.mp (mem_of_rowState hrow)
    exact overlayLines_word hlines hline
  · have hall : marketing.all (fun c => c ≠ [] && c.all (!isSpace ·)) = true := by
      decide +kernel
    have hchip := all_eq_true.mp hall c hchip
    simpa using hchip

theorem flipTree_ok {env : FlipEnv} {t t' : Tree} {chip : Text}
    {promote : Bool} (h : flipTree env t chip promote = .ok t') :
    chip ∈ marketing ∧ ∃ lines, overlayLines t.overlays = some lines ∧
      decide (rowState lines chip = some "enabled".toList) = !promote ∧
      editLists env lines t chip promote = .ok t' := by
  rw [flipTree] at h
  split at h
  · cases h
  next hchip =>
  split at h
  · cases h
  next lines hlines =>
  split at h
  · cases h
  next hstate =>
  split at h
  · cases h
  split at h
  · cases h
  next tree hedit =>
  cases h
  exact ⟨not_not.mp hchip, lines, hlines, Bool.eq_not.mpr hstate, hedit⟩

theorem enumeration_append (printable : Char → Bool) (chips : List Text)
    (rest : Text) : enumeration printable chips ++ rest =
      docOpen ++ (showNames printable chips ++ (" nodes: ".toList ++
        (showKeys printable chips ++ ("; the".toList ++ rest)))) := by
  rw [enumeration]
  generalize docOpen = a, " nodes: ".toList = b, "; the".toList = c
  simp only [append_assoc]

/-- After a flip the enumeration stands where the old one was found, and it
gives the names and the keys of the opt-in chips, in order, if their number is
not one. -/
theorem docstring_reads_iff {env : FlipEnv} {t t' : Tree} {chip : Text}
    {promote : Bool} (h : flipTree env t chip promote = .ok t') :
    ∃ lines before after, overlayLines t.overlays = some lines ∧
      firstMatch matchDoc (fun _ => true) true t.dt = some (before, after) ∧
      let chips := optInAfter lines chip promote
      let names := showNames env.printable chips
      let keys := showKeys env.printable chips
      t'.dt = before ++ ("(the untested ".toList ++ (names ++
        (" nodes: ".toList ++ (keys ++ ("; the".toList ++ after))))) ∧
      (∀ c, c ∈ chips ↔
        if promote then rowState lines c = some "opt-in".toList ∧ c ≠ chip
        else rowState lines c = some "opt-in".toList ∨ c = chip) ∧
      chips.Pairwise (· < ·) ∧
      ((ReadsBack names (chips.map upper) ∧
          ReadsBack keys (chips.map fun c => quote ("ane-".toList ++ c))) ↔
        chips.length ≠ 1) := by
  obtain ⟨hchip, lines, hlines, -, hedit⟩ := flipTree_ok h
  simp only [editLists, bind_eq_ok, pure_eq_ok] at hedit
  obtain ⟨-, -, -, -, -, -, dt, hdt, rfl⟩ := hedit
  have hword := fun c => @optInAfter_word _ _ _ hlines hchip promote c
  have hnames := @readsBack_iff ((optInAfter lines chip promote).map upper)
    env.printable (by
      intro n hn
      obtain ⟨c, hc, rfl⟩ := mem_map.mp hn
      exact upper_uncut (hword c hc).1 (hword c hc).2)
  have hkeys := @readsBack_iff ((optInAfter lines chip promote).map fun c =>
    quote ("ane-".toList ++ c)) env.printable (by
      intro n hn
      obtain ⟨c, hc, rfl⟩ := mem_map.mp hn
      exact key_uncut (hword c hc).2)
  rw [length_map] at hnames hkeys
  rw [editDtDocstring] at hdt
  split at hdt
  · cases hdt
  next before after hmatch =>
  cases hdt
  refine ⟨lines, before, after, hlines, hmatch, ?_, fun c => mem_optInAfter,
    optInAfter_strict, ?_⟩
  · exact congrArg (before ++ ·) (enumeration_append _ _ after)
  · exact (and_congr hnames hkeys).trans and_self_iff

/-- The four files of a tree in which T6002 and T8112 are opt-in. -/
def twoOptIn : Tree where
  overlays := ("# Tested SoCs are enabled ().\n" ++
    "t6002 t6002-ane.dts opt-in\nt8112 t8112-ane.dts opt-in\n").toList
  check := "  \"\") ;;\n  t6002|t8112)\n".toList
  fetch := "DEFAULT_ON = ()\n".toList
  dt := ("(the untested T6002 and T8112 nodes: \"ane-t6002\" and " ++ "\"ane-t8112\"; the").toList

/-- The tree after T8112 is promoted. -/
def oneOptIn : Tree where
  overlays := ("# Tested SoCs are enabled (T8112).\n" ++
    "t6002 t6002-ane.dts opt-in\nt8112 t8112-ane.dts enabled\n").toList
  check := "  t8112|\"\") ;;\n  t6002)\n".toList
  fetch := "DEFAULT_ON = (\"apple,t8112\",)\n".toList
  dt := "(the untested ['T6002'] nodes: ['\"ane-t6002\"']; the".toList

/-- Everything prints, the firmware of T8112 is fetched, nothing else refuses. -/
def plainEnv : FlipEnv where
  printable _ := true
  ascii _ _ _ := rfl
  fetches c := c = "t8112".toList
  refusesOther _ _ := false

theorem flipTree_twoOptIn : flipTree plainEnv twoOptIn "t8112".toList true = .ok oneOptIn := by
  decide +kernel

theorem docstring_reads_oneOptIn : flipTree plainEnv twoOptIn "t8112".toList true = .ok oneOptIn ∧
      ∃ chips : List Text, chips.length = 1 ∧
        ¬(ReadsBack (showNames plainEnv.printable chips) (chips.map upper) ∧
          ReadsBack (showKeys plainEnv.printable chips)
            (chips.map fun c => quote ("ane-".toList ++ c))) := by
  obtain ⟨lines, _, _, hlines, -, -, -, -, hreads⟩ := docstring_reads_iff flipTree_twoOptIn
  have hone : ((overlayLines twoOptIn.overlays).map fun lines =>
      (optInAfter lines "t8112".toList true).length) = some 1 := by decide +kernel
  rw [hlines, Option.map_some, Option.some.injEq] at hone
  exact ⟨flipTree_twoOptIn, _, hone, fun h => hreads.mp h hone⟩

/-- With one chip left, the docstring has the text of a list. -/
theorem docstring_one_chip : flipTree plainEnv twoOptIn "t8112".toList true = .ok oneOptIn ∧
      oneOptIn.dt = "(the untested ['T6002'] nodes: ['\"ane-t6002\"']; the".toList ∧
      ¬ ReadsBack "['T6002']".toList ["T6002".toList] ∧
      ¬ ReadsBack "['\"ane-t6002\"']".toList ["\"ane-t6002\"".toList] := by
  refine ⟨flipTree_twoOptIn, rfl, ?_⟩
  simp only [ReadsBack]
  decide +kernel

end OmarchyAne.Promotion
