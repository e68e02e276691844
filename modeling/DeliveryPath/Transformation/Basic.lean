import DeliveryPath.KeyedList
import DeliveryPath.Parameter
import DeliveryPath.Value

/-!
# Transformations

A transformation is a chain of segments, of which the last one is still open. A segment holds parameters, each
under a key of its own and in the order in which the keys came first, and it may say which size an image tag
should announce. The segments before the open one are transformations in turn, so chains can be joined into
longer chains.
-/

namespace DeliveryPath

structure Segment where
  parameters : List (String × Value) := []
  htmlWidth : Option String := none
  htmlHeight : Option String := none

structure Transformation where
  chained : List Transformation := []
  current : Segment := {}

/-! ## Parameters -/

namespace Segment

def put (s : Segment) (key : String) (value : Value) : Segment :=
  { s with parameters := upsert key value s.parameters }

def get? (s : Segment) (key : String) : Option Value := valueAt? key s.parameters

theorem get?_put (s : Segment) (key k : String) (value : Value) :
    (s.put key value).get? k = if key = k then some value else s.get? k := valueAt?_upsert key value k s.parameters

theorem get?_put_self (s : Segment) (key : String) (value : Value) : (s.put key value).get? key = some value := by
  rw [get?_put, if_pos rfl]

def scalar? (s : Segment) (key : String) : Option String := (s.get? key).bind Value.scalar?

end Segment

namespace Transformation

def empty : Transformation := {}

/-- Sets a parameter of the open segment. -/
def add (t : Transformation) (key : String) (value : Value) : Transformation :=
  { t with current := t.current.put key value }

def get? (t : Transformation) (key : String) : Option Value := t.current.get? key

mutual

/-- The segments in the order in which a path shows them: those of a chain come before the open one. -/
def segments : Transformation → List Segment
  | ⟨chained, current⟩ => segmentsOfChain chained ++ [current]

def segmentsOfChain : List Transformation → List Segment
  | [] => []
  | t :: ts => segments t ++ segmentsOfChain ts

end

theorem segments_eq (t : Transformation) : t.segments = segmentsOfChain t.chained ++ [t.current] := by
  cases t; rfl

theorem current_mem_segments (t : Transformation) : t.current ∈ t.segments := by
  rw [segments_eq]
  exact List.mem_append_right _ (List.mem_singleton_self _)

theorem segmentsOfChain_append (ts us : List Transformation) :
    segmentsOfChain (ts ++ us) = segmentsOfChain ts ++ segmentsOfChain us := by
  induction ts with
  | nil => simp [segmentsOfChain]
  | cons t ts ih => simp only [List.cons_append, segmentsOfChain, ih, List.append_assoc]

theorem segmentsOfChain_eq_flatMap (ts : List Transformation) : segmentsOfChain ts = ts.flatMap segments := by
  induction ts with
  | nil => rfl
  | cons t ts ih => rw [segmentsOfChain, ih, List.flatMap_cons]

theorem mem_segmentsOfChain {s : Segment} {ts : List Transformation} :
    s ∈ segmentsOfChain ts ↔ ∃ t ∈ ts, s ∈ t.segments := by
  induction ts with
  | nil => simp [segmentsOfChain]
  | cons t ts ih => simp [segmentsOfChain, ih]

theorem forall_segments_iff {P : Segment → Prop} {t : Transformation} :
    (∀ s ∈ t.segments, P s) ↔ (∀ s ∈ segmentsOfChain t.chained, P s) ∧ P t.current := by
  rw [segments_eq, List.forall_mem_append, List.forall_mem_singleton]

theorem forall_segmentsOfChain_iff {P : Segment → Prop} {ts : List Transformation} :
    (∀ s ∈ segmentsOfChain ts, P s) ↔ ∀ t ∈ ts, ∀ s ∈ t.segments, P s := by
  constructor
  · intro h t ht s hs
    exact h s (mem_segmentsOfChain.mpr ⟨t, ht, hs⟩)
  · intro h s hs
    obtain ⟨t, ht, hs⟩ := mem_segmentsOfChain.mp hs
    exact h t ht s hs

theorem segmentsOfChain_singleton (t : Transformation) : segmentsOfChain [t] = t.segments := by
  simp [segmentsOfChain]

/-- A single segment with the given parameters; of equal keys the last one counts, at the place of the first. -/
def ofParameters (parameters : List (String × Value)) : Transformation :=
  parameters.foldl (fun t p => t.add p.1 p.2) empty

/-- One chain of several transformations. -/
def ofChain (chain : List Transformation) : Transformation := { chained := chain }

def isEmpty (t : Transformation) : Bool := t.current.parameters.isEmpty && t.chained.isEmpty

/-- Closes the open segment and opens a new one. -/
def chain (t : Transformation) : Transformation := { chained := t.chained ++ [{ current := t.current }] }

theorem segments_ofChain (ts : List Transformation) :
    (ofChain ts).segments = segmentsOfChain ts ++ [({} : Segment)] := rfl

theorem segmentsOfChain_chain (t : Transformation) : segmentsOfChain t.chain.chained = t.segments := by
  simp [chain, segments_eq, segmentsOfChain_append, segmentsOfChain]

theorem segments_chain (t : Transformation) : t.chain.segments = t.segments ++ [({} : Segment)] := by
  rw [segments_eq, segmentsOfChain_chain]; rfl

end Transformation

end DeliveryPath
