import InmemRuntime.OrderedDict
import Mathlib.Algebra.Group.Prod
import Mathlib.Algebra.Order.Ring.Int

namespace InmemRuntime.SizeTracking
open OrderedDict

-- `(bytes, checkpoint count)` for each thread with anything to count, and the
-- two totals that are maintained next to it.
structure SizeState where
  byThread : Dict String (Int × Int)
  totalBytes : Int
  totalCheckpoints : Int

namespace SizeState

def clear : SizeState := ⟨.empty,0,0⟩

def thread (s : SizeState) (threadId : String) : Int × Int := (s.byThread.get? threadId).getD (0,0)

-- The tail that `adjust`, `remove_thread` and `copy_thread` have in common:
-- move the totals by the difference and keep no entry for `(0, 0)`.
def assign (s : SizeState) (threadId : String) (new : Int × Int) : SizeState :=
  let old := s.thread threadId
  ⟨if new.1 ≠ 0 ∨ new.2 ≠ 0 then s.byThread.insert threadId new else s.byThread.erase threadId,
    s.totalBytes + (new.1 - old.1),s.totalCheckpoints + (new.2 - old.2)⟩

-- The source clamps with `max(0, ·)`. The clamp is an argument so that the
-- tracker with it can be compared with the tracker without it.
def adjust (clamp : Int → Int) (s : SizeState) (threadId : String) (sizeDelta checkpointDelta : Int) : SizeState :=
  let old := s.thread threadId
  s.assign threadId (clamp (old.1 + sizeDelta),clamp (old.2 + checkpointDelta))

def removeThread (s : SizeState) (threadId : String) : SizeState := s.assign threadId (0,0)

def copyThread (s : SizeState) (source target : String) : SizeState := s.assign target (s.thread source)

end SizeState

-- A measure weighs the data of a selection of threads. A tracker tracks it
-- when each entry is the weight of one thread and the totals that of all.
abbrev Measure := (String → Bool) → Int × Int

def stored (pair : Int × Int) : Option (Int × Int) :=
  if pair.1 ≠ 0 ∨ pair.2 ≠ 0 then some pair else none

structure Tracks (s : SizeState) (m : Measure) : Prop where
  each : ∀ threadId, s.byThread.get? threadId = stored (m (· == threadId))
  bytes : s.totalBytes = (m fun _ => true).1
  checkpoints : s.totalCheckpoints = (m fun _ => true).2

def shifted (m : Measure) (threadId : String) (delta : Int × Int) : Measure :=
  fun sel => m sel + if sel threadId then delta else 0

theorem stored_getD (pair : Int × Int) : (stored pair).getD (0,0) = pair := by
  unfold stored
  split
  · rfl
  · rename_i zero
    rw [not_or,not_not,not_not] at zero
    exact (Prod.ext zero.1 zero.2).symm

theorem Tracks.thread {s : SizeState} {m : Measure} (tracks : Tracks s m) (threadId : String) :
    s.thread threadId = m (· == threadId) := by
  rw [SizeState.thread,tracks.each,stored_getD]

theorem Tracks.congr {s : SizeState} {m m' : Measure} (tracks : Tracks s m) (same : ∀ sel, m sel = m' sel) :
    Tracks s m' := by
  cases (funext same : m = m'); exact tracks

theorem clear_tracks : Tracks .clear fun _ => 0 := ⟨fun _ => rfl,rfl,rfl⟩

theorem assign_tracks {s : SizeState} {m : Measure} (tracks : Tracks s m) (threadId : String) (new : Int × Int) :
    Tracks (s.assign threadId new) (shifted m threadId (new - m (· == threadId))) := by
  refine ⟨?_,?_,?_⟩
  · intro other
    by_cases equal : threadId = other
    · subst other
      simp only [shifted,beq_self_eq_true,↓reduceIte,add_sub_cancel,SizeState.assign,stored]
      split
      · simp
      · simp [Dict.get?_erase]
    · have apart : (threadId == other) = false := by simp [equal]
      simp only [shifted,apart,Bool.false_eq_true,↓reduceIte,add_zero,← tracks.each,SizeState.assign]
      split
      · exact Dict.get?_insert_other apart
      · simp [Dict.get?_erase,equal]
  · simp [SizeState.assign,shifted,tracks.thread,tracks.bytes]
  · simp [SizeState.assign,shifted,tracks.thread,tracks.checkpoints]

section clamped
variable {clamp : Int → Int} (exact : ∀ x, 0 ≤ x → clamp x = x)
include exact

theorem adjust_unclamped {s : SizeState} {m : Measure} (tracks : Tracks s m) {threadId : String} {delta : Int × Int}
    (nonneg : 0 ≤ m (· == threadId) + delta) :
    s.adjust clamp threadId delta.1 delta.2 = s.assign threadId (m (· == threadId) + delta) := by
  have bytes : 0 ≤ (m (· == threadId)).1 + delta.1 := nonneg.1
  have count : 0 ≤ (m (· == threadId)).2 + delta.2 := nonneg.2
  simp only [SizeState.adjust,tracks.thread,exact _ bytes,exact _ count]
  rfl

theorem adjust_tracks {s : SizeState} {m : Measure} (tracks : Tracks s m) {threadId : String} {delta : Int × Int}
    (nonneg : 0 ≤ m (· == threadId) + delta) :
    Tracks (s.adjust clamp threadId delta.1 delta.2) (shifted m threadId delta) := by
  rw [adjust_unclamped exact tracks nonneg]
  refine (assign_tracks tracks threadId _).congr fun sel => ?_
  simp [shifted]

end clamped

theorem remove_tracks {s : SizeState} {m : Measure} (tracks : Tracks s m) (threadId : String) :
    Tracks (s.removeThread threadId) (shifted m threadId (-m (· == threadId))) :=
  (assign_tracks tracks threadId (0,0)).congr fun sel => by
    simp only [shifted,show ((0,0) : Int × Int) = 0 from rfl,zero_sub]

theorem copy_tracks {s : SizeState} {m : Measure} (tracks : Tracks s m) (source target : String) :
    Tracks (s.copyThread source target) (shifted m target (m (· == source) - m (· == target))) := by
  unfold SizeState.copyThread
  rw [tracks.thread]
  exact assign_tracks tracks target _

-- Two trackers of one measure answer every question alike.
theorem tracks_unique {s s' : SizeState} {m : Measure} (left : Tracks s m) (right : Tracks s' m) :
    (∀ threadId, s.byThread.get? threadId = s'.byThread.get? threadId) ∧
      s.totalBytes = s'.totalBytes ∧ s.totalCheckpoints = s'.totalCheckpoints :=
  ⟨fun threadId => (left.each threadId).trans (right.each threadId).symm,
    left.bytes.trans right.bytes.symm,left.checkpoints.trans right.checkpoints.symm⟩

end InmemRuntime.SizeTracking
