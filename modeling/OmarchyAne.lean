import OmarchyAne.Adt.Agree
import OmarchyAne.Adt.Encoded15
import OmarchyAne.Adt.Encoded16
import OmarchyAne.AneSession.Framing
import OmarchyAne.Aurora.Reached
import OmarchyAne.Chan.Table
import OmarchyAne.Dart.Failure
import OmarchyAne.H13.ExecLoop
import OmarchyAne.H13.Load
import OmarchyAne.H13.TileFits
import OmarchyAne.H13.TilePack
import OmarchyAne.H15.FwMap
import OmarchyAne.H18.Mal
import OmarchyAne.H18.RtkShutdown
import OmarchyAne.Hwx.Convert15
import OmarchyAne.Libane.BlendRanks
import OmarchyAne.Libane.Framing
import OmarchyAne.Libane.Scratch
import OmarchyAne.Libane.Sha256Correct
import OmarchyAne.M1.Boost
import OmarchyAne.M1.DvfsDiscipline
import OmarchyAne.M1.MapPaths
import OmarchyAne.M1.TmExecute
import OmarchyAne.Packaging.FirmwareFetch
import OmarchyAne.Promotion.Docstring
import OmarchyAne.Promotion.Note
import OmarchyAne.Promotion.Order
import OmarchyAne.Promotion.Release
import OmarchyAne.Qwen.FoldLayout
import OmarchyAne.Stats.Timeline
import OmarchyAne.T6021.AllocRetry
import OmarchyAne.T6021.FwHeap
import OmarchyAne.T6021.FwPatch
import OmarchyAne.T6021.FwValidate
import OmarchyAne.T6021.Isolation
import OmarchyAne.T6021.Lifetime
import OmarchyAne.T6021.ProgramKey
