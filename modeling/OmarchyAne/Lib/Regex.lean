import OmarchyAne.Lib.Text

/-!
# Regular expressions with backtracking

The part of Python's `re` that a line scanner needs: character classes,
greedy repetition of a class, alternation, groups, the word edge and the end
of the text.  `Rx.run` gives every way to match at a place, in the order in
which a backtracking matcher tries them, so the first one is the match.
`Rx.matchStart`, `Rx.search` and `Rx.findall` are the calls `match`, `search`
and `findall`.

`Rx.Spells` is the language of a pattern without its anchors.  Whatever a run
passes over is in it (`Rx.run_spells`), so a text that no word of the language
begins is not matched.
-/

namespace OmarchyAne.Lib

open List

inductive Rx where
  | eps
  | chr (p : Char → Bool)
  | many (p : Char → Bool)
  | seq (a b : Rx)
  | alt (a b : Rx)
  | group (n : Nat) (a : Rx)
  | edge (isWord : Char → Bool)
  | stop

namespace Rx

/-- A place in a text: the character before it, the text after it, and the
groups that have been read. -/
structure At where
  prev : Option Char
  rest : Text
  caps : List (Nat × Text)

/-- The places after a greedy run of a class, the farthest first. -/
def manyFrom (p : Char → Bool) (caps : List (Nat × Text)) :
    Option Char → Text → List At
  | prev, [] => [⟨prev, [], caps⟩]
  | prev, c :: t =>
    if p c then manyFrom p caps (some c) t ++ [⟨prev, c :: t, caps⟩]
    else [⟨prev, c :: t, caps⟩]

def run : Rx → At → List At
  | .eps, s => [s]
  | .chr p, s =>
    match s.rest with
    | [] => []
    | c :: t => if p c then [⟨some c, t, s.caps⟩] else []
  | .many p, s => manyFrom p s.caps s.prev s.rest
  | .seq a b, s => (a.run s).flatMap b.run
  | .alt a b, s => a.run s ++ b.run s
  | .group n a, s =>
    (a.run s).map fun e =>
      { e with
        caps := (n, s.rest.take (s.rest.length - e.rest.length)) :: e.caps }
  | .edge isWord, s =>
    if s.prev.any isWord != s.rest.head?.any isWord then [s] else []
  | .stop, s => if s.rest = [] ∨ s.rest = ['\n'] then [s] else []

/-- The match at the beginning of a text. -/
def matchStart (r : Rx) (t : Text) : Option At := (r.run ⟨none, t, []⟩).head?

/-- What a group of a match has read. -/
def At.cap (e : At) (n : Nat) : Option Text :=
  (e.caps.find? fun c => c.1 = n).map (·.2)

private def searchFrom (r : Rx) : Option Char → Text → Bool
  | prev, [] => !(r.run ⟨prev, [], []⟩).isEmpty
  | prev, c :: t =>
    !(r.run ⟨prev, c :: t, []⟩).isEmpty || searchFrom r (some c) t

/-- Whether the pattern matches at some place of a text. -/
def search (r : Rx) (t : Text) : Bool := searchFrom r none t

/-- The matches from a place on, of which `skip` characters belong to the
last one. -/
private def findallFrom (r : Rx) (n : Nat) :
    Nat → Option Char → Text → List Text
  | _, _, [] => []
  | skip + 1, _, c :: t => findallFrom r n skip (some c) t
  | 0, prev, c :: t =>
    match (r.run ⟨prev, c :: t, []⟩).head? with
    | none => findallFrom r n 0 (some c) t
    | some e =>
      (e.cap n).toList ++ findallFrom r n (t.length - e.rest.length) (some c) t

/-- What group `n` reads in the matches of a text, from left to right, of a
pattern that does not match the empty text. -/
def findall (r : Rx) (n : Nat) (t : Text) : List Text :=
  findallFrom r n 0 none t

/-- A fixed text. -/
def lit (t : Text) : Rx := t.foldr (fun c r => .seq (.chr (· == c)) r) .eps

/-- One or more characters of a class. -/
def plus (p : Char → Bool) : Rx := .seq (.chr p) (.many p)

/-- The first pattern that matches. -/
def alts : List Rx → Rx
  | [] => .chr fun _ => false
  | [r] => r
  | r :: rs => .alt r (alts rs)

/-- The parts one after the other. -/
def seqs (rs : List Rx) : Rx := rs.foldr .seq .eps

/-! ## The language of a pattern -/

/-- The texts that a pattern can pass over. -/
def Spells : Rx → Text → Prop
  | .eps, t => t = []
  | .chr p, t => ∃ c, p c = true ∧ t = [c]
  | .many p, t => ∀ c ∈ t, p c = true
  | .seq a b, t => ∃ u v, t = u ++ v ∧ a.Spells u ∧ b.Spells v
  | .alt a b, t => a.Spells t ∨ b.Spells t
  | .group _ a, t => a.Spells t
  | .edge _, t => t = []
  | .stop, t => t = []

variable {e : At} {t : Text}

private theorem manyFrom_spells {p : Char → Bool} {caps : List (Nat × Text)}
    {prev : Option Char} (h : e ∈ manyFrom p caps prev t) :
    ∃ u, t = u ++ e.rest ∧ ∀ c ∈ u, p c = true := by
  induction t generalizing prev with
  | nil =>
    rw [manyFrom, mem_singleton] at h
    exact ⟨[], by rw [h]; rfl, by simp⟩
  | cons c t ih =>
    rw [manyFrom] at h
    split at h
    · next hc =>
      rw [mem_append, mem_singleton] at h
      obtain h | rfl := h
      · obtain ⟨u, rfl, hu⟩ := ih h
        exact ⟨c :: u, rfl, by simpa [hc] using hu⟩
      · exact ⟨[], rfl, by simp⟩
    · rw [mem_singleton] at h
      exact ⟨[], by rw [h]; rfl, by simp⟩

/-- Whatever a run passes over is in the language of the pattern. -/
theorem run_spells {r : Rx} {s : At} (h : e ∈ r.run s) :
    ∃ u, s.rest = u ++ e.rest ∧ r.Spells u := by
  induction r generalizing s e with
  | eps =>
    rw [run, mem_singleton] at h
    exact ⟨[], by rw [h]; rfl, rfl⟩
  | chr p =>
    rw [run] at h
    split at h
    · simp at h
    · next c t hrest =>
      split at h
      · next hc =>
        rw [mem_singleton] at h
        exact ⟨[c], by rw [hrest, h]; rfl, c, hc, rfl⟩
      · simp at h
  | many p => exact manyFrom_spells h
  | seq a b iha ihb =>
    rw [run, mem_flatMap] at h
    obtain ⟨m, hm, he⟩ := h
    obtain ⟨u, hu, hau⟩ := iha hm
    obtain ⟨v, hv, hbv⟩ := ihb he
    exact ⟨u ++ v, by rw [hu, hv, append_assoc], u, v, rfl, hau, hbv⟩
  | alt a b iha ihb =>
    rw [run, mem_append] at h
    obtain h | h := h
    · obtain ⟨u, hu, hau⟩ := iha h
      exact ⟨u, hu, .inl hau⟩
    · obtain ⟨u, hu, hbu⟩ := ihb h
      exact ⟨u, hu, .inr hbu⟩
  | group n a iha =>
    rw [run, mem_map] at h
    obtain ⟨m, hm, rfl⟩ := h
    obtain ⟨u, hu, hau⟩ := iha hm
    exact ⟨u, hu, hau⟩
  | edge isWord =>
    rw [run] at h
    split at h
    · rw [mem_singleton] at h
      exact ⟨[], by rw [h]; rfl, rfl⟩
    · simp at h
  | stop =>
    rw [run] at h
    split at h
    · rw [mem_singleton] at h
      exact ⟨[], by rw [h]; rfl, rfl⟩
    · simp at h

theorem matchStart_spells {r : Rx} (h : r.matchStart t = some e) :
    ∃ u, t = u ++ e.rest ∧ r.Spells u :=
  run_spells (mem_of_head? h)

@[simp] theorem lit_spells {s : Text} : (lit s).Spells t ↔ t = s := by
  induction s generalizing t with
  | nil => rfl
  | cons c s ih =>
    show (∃ u v, t = u ++ v ∧ (∃ d, (d == c) = true ∧ u = [d]) ∧ (lit s).Spells v) ↔ t = c :: s
    simp only [beq_iff_eq, ih]
    constructor
    · rintro ⟨u, v, rfl, ⟨d, rfl, rfl⟩, rfl⟩
      rfl
    · rintro rfl
      exact ⟨[c], s, rfl, ⟨c, rfl, rfl⟩, rfl⟩

theorem plus_spells {p : Char → Bool} : (plus p).Spells t ↔ t ≠ [] ∧ ∀ c ∈ t, p c = true := by
  show (∃ u v, t = u ++ v ∧ (∃ c, p c = true ∧ u = [c]) ∧ ∀ c ∈ v, p c = true) ↔ _
  constructor
  · rintro ⟨u, v, rfl, ⟨c, hc, rfl⟩, hv⟩
    exact ⟨by simp, by simpa [hc] using hv⟩
  · rintro ⟨hne, ht⟩
    obtain ⟨c, v, rfl⟩ := exists_cons_of_ne_nil hne
    rw [forall_mem_cons] at ht
    exact ⟨[c], v, rfl, ⟨c, ht.1, rfl⟩, ht.2⟩

end Rx

end OmarchyAne.Lib
