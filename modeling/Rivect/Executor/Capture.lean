import Rivect.Executor.Launch
import Rivect.Lib.Chunks

/-! # The bounded capture of one stream

`BoundedCapture` of `src/executor.rs` and the retained bytes of `owned_drain`: both edges of a
stream that arrives in chunks. A slice outside its bytes, or a sum past `usize`, is a panic.
-/

namespace Rivect.Executor

open List Option
open EffectPolicy (Text)

def USIZE_MAX : ℕ := 2 ^ 64 - 1

def U64_MAX : ℕ := 2 ^ 64 - 1

def CHECK_CAPTURE_EDGE_BYTES : ℕ := 8 * 1024

/-- Bytes that a slice can hold: at most `isize::MAX` of them. -/
structure Slice where
  bytes : List UInt8
  bounded : bytes.length < 2 ^ 63

structure BoundedCapture where
  head : List UInt8
  tail : List UInt8
  total : ℕ
deriving DecidableEq

/-- `&bytes[..end]` -/
def sliceTo (bytes : List UInt8) (stop : ℕ) : Option (List UInt8) :=
  if stop ≤ bytes.length then some (bytes.take stop) else none

/-- `&bytes[start..]` -/
def sliceFrom (bytes : List UInt8) (start : ℕ) : Option (List UInt8) :=
  if start ≤ bytes.length then some (bytes.drop start) else none

/-- A sum of lengths. -/
def usizeAdd (a b : ℕ) : Option ℕ := if a + b ≤ USIZE_MAX then some (a + b) else none

namespace BoundedCapture

def empty : BoundedCapture := ⟨[], [], 0⟩

def extend (capture : BoundedCapture) (bytes : List UInt8) : Option BoundedCapture := do
  let room := CHECK_CAPTURE_EDGE_BYTES - capture.head.length
  let front ← sliceTo bytes (min bytes.length room)
  let length ← usizeAdd capture.tail.length bytes.length
  let dropFront := min (length - CHECK_CAPTURE_EDGE_BYTES) capture.tail.length
  let kept ← sliceFrom capture.tail dropFront
  let back ← sliceFrom bytes (bytes.length - (CHECK_CAPTURE_EDGE_BYTES - kept.length))
  return ⟨capture.head ++ front, kept ++ back, min (capture.total + bytes.length) U64_MAX⟩

/-- The capture of a whole stream. -/
def of (stream : List UInt8) : BoundedCapture where
  head := stream.take CHECK_CAPTURE_EDGE_BYTES
  tail := stream.drop (stream.length - CHECK_CAPTURE_EDGE_BYTES)
  total := min stream.length U64_MAX

end BoundedCapture

/-! ## Edges of a list -/

section Edges

variable {α : Type} (s t : List α) (n : ℕ)

theorem take_room : s.take n ++ t.take (n - (s.take n).length) = (s ++ t).take n := by
  rw [take_append, length_take]
  congr 1
  rw [take_eq_take_iff]
  omega

theorem take_extend : s.take n ++ t.take (min t.length (n - (s.take n).length)) =
    (s ++ t).take n := by
  rw [← take_room s t n]
  congr 1
  rw [take_eq_take_iff]
  omega

theorem drop_extend : (s.drop (s.length - n)).drop
      (min ((s.drop (s.length - n)).length + t.length - n) (s.drop (s.length - n)).length) ++
    t.drop (t.length - (n - ((s.drop (s.length - n)).drop
      (min ((s.drop (s.length - n)).length + t.length - n)
        (s.drop (s.length - n)).length)).length)) =
    (s ++ t).drop ((s ++ t).length - n) := by
  rw [drop_append, length_append, drop_drop]
  simp only [length_drop]
  congr 1
  · rw [drop_eq_drop_iff]
    omega
  · rw [drop_eq_drop_iff]
    omega

end Edges

/-! ## Any chunks -/

namespace BoundedCapture

theorem sliceTo_some {bytes : List UInt8} {stop : ℕ} (h : stop ≤ bytes.length) :
    sliceTo bytes stop = some (bytes.take stop) := if_pos h

theorem sliceFrom_some {bytes : List UInt8} {start : ℕ} (h : start ≤ bytes.length) :
    sliceFrom bytes start = some (bytes.drop start) := if_pos h

theorem usizeAdd_some {a b : ℕ} (h : a + b ≤ USIZE_MAX) : usizeAdd a b = some (a + b) := if_pos h

/-- One chunk more moves both edges, and no index leaves its bytes. -/
theorem extend_of (stream : List UInt8) (chunk : Slice) :
    (of stream).extend chunk.bytes = some (of (stream ++ chunk.bytes)) := by
  have hbounded := chunk.bounded
  have htail : (of stream).tail.length ≤ CHECK_CAPTURE_EDGE_BYTES := by
    unfold of
    rw [length_drop]
    omega
  have hsum : (of stream).tail.length + chunk.bytes.length ≤ USIZE_MAX := by
    unfold USIZE_MAX
    unfold CHECK_CAPTURE_EDGE_BYTES at htail
    omega
  unfold extend
  simp only [bind_eq_bind]
  rw [sliceTo_some (Nat.min_le_left ..), bind_some, usizeAdd_some hsum, bind_some,
    sliceFrom_some (Nat.min_le_right ..), bind_some, sliceFrom_some (Nat.sub_le ..),
    bind_some]
  refine congrArg some ?_
  unfold of
  rw [mk.injEq]
  dsimp only
  generalize CHECK_CAPTURE_EDGE_BYTES = edge
  refine ⟨take_extend stream chunk.bytes edge, drop_extend stream chunk.bytes edge, ?_⟩
  rw [length_append]
  omega

/-- The capture of some chunks. -/
def captured (chunks : List Slice) : Option BoundedCapture :=
  chunks.foldlM (fun capture chunk => capture.extend chunk.bytes) empty

/-- The stream that some chunks make. -/
def stream (chunks : List Slice) : List UInt8 := (chunks.map Slice.bytes).flatten

theorem extends_of (seen : List UInt8) (chunks : List Slice) :
    chunks.foldlM (fun capture chunk => capture.extend chunk.bytes) (of seen) =
      some (of (seen ++ stream chunks)) := by
  induction chunks generalizing seen with
  | nil =>
    rw [stream, map_nil, flatten_nil, append_nil]
    rfl
  | cons chunk chunks ih =>
    rw [foldlM_cons, extend_of, bind_eq_bind, bind_some, ih, stream, stream,
      map_cons, flatten_cons, append_assoc]

theorem captured_eq (chunks : List Slice) : captured chunks = some (of (stream chunks)) :=
  extends_of [] chunks

end BoundedCapture

/-! ## The drained pipe -/

/-- The bytes that a pipe delivers up to its end. -/
def delivered : List Reading → Text
  | [] => []
  | .eof :: _ => []
  | .bytes read :: readings => read ++ delivered readings
  | .wouldBlock :: readings => delivered readings
  | .failed _ :: readings => delivered readings

/-- The pipe after some readings. -/
def drained (cap : ℕ) (pipe : Pipe) (readings : List Reading) : Pipe :=
  readings.foldl (fun pipe reading => (ownedDrain cap pipe reading).1) pipe

theorem drained_closed (cap : ℕ) (retained : Text) (readings : List Reading) :
    drained cap ⟨false, retained⟩ readings = ⟨false, retained⟩ := by
  induction readings with
  | nil => rfl
  | cons reading readings ih => exact ih

theorem retained_drained (cap : ℕ) (seen : Text) (readings : List Reading) :
    (drained cap ⟨true, seen.take cap⟩ readings).retained =
      (seen ++ delivered readings).take cap := by
  induction readings generalizing seen with
  | nil =>
    rw [delivered, append_nil]
    rfl
  | cons reading readings ih =>
    cases reading with
    | eof =>
      rw [delivered, append_nil]
      exact congrArg Pipe.retained (drained_closed cap (seen.take cap) readings)
    | bytes read =>
      rw [delivered, ← append_assoc, ← ih, ← take_room seen read cap]
      rfl
    | wouldBlock => exact ih seen
    | failed source => exact ih seen

/-- Both edges are kept exactly, whatever the chunks, and a drained pipe retains the front; only the
count of a stream past `u64::MAX` stops there. -/
theorem capture_edges (chunks : List Slice) (cap : ℕ) (readings : List Reading) :
    (∃ capture, BoundedCapture.captured chunks = some capture ∧
      capture.head = (BoundedCapture.stream chunks).take
        (min (BoundedCapture.stream chunks).length CHECK_CAPTURE_EDGE_BYTES) ∧
      capture.tail = (BoundedCapture.stream chunks).drop
        ((BoundedCapture.stream chunks).length -
          min (BoundedCapture.stream chunks).length CHECK_CAPTURE_EDGE_BYTES) ∧
      capture.total = min (BoundedCapture.stream chunks).length U64_MAX) ∧
    (drained cap ⟨true, []⟩ readings).retained =
      (delivered readings).take (min (delivered readings).length cap) := by
  refine ⟨⟨_, BoundedCapture.captured_eq chunks, ?_, ?_, rfl⟩, ?_⟩
  · rw [BoundedCapture.of, take_eq_take_iff]
    omega
  · rw [BoundedCapture.of, drop_eq_drop_iff]
    omega
  · have hretained := retained_drained cap [] readings
    rw [take_nil, nil_append] at hretained
    rw [hretained, take_eq_take_iff]
    omega

/-- As many bytes of one kind as one read carries. -/
def block : Slice := ⟨List.replicate (2 ^ 13) 0, by rw [length_replicate]; decide⟩

theorem length_blocks (count : ℕ) :
    (BoundedCapture.stream (List.replicate count block)).length = count * 2 ^ 13 := by
  unfold BoundedCapture.stream
  rw [map_replicate, length_flatten, map_replicate, sum_replicate_nat]
  exact congrArg (count * ·) length_replicate

/-- A stream of 2⁶⁴ bytes counts one byte less. -/
theorem count_saturates : ¬ ∀ chunks capture, BoundedCapture.captured chunks = some capture →
    capture.total = (BoundedCapture.stream chunks).length := by
  intro h
  have htotal := h (List.replicate (2 ^ 51) block) _ (BoundedCapture.captured_eq _)
  rw [BoundedCapture.of, length_blocks] at htotal
  exact absurd htotal (by decide)

end Rivect.Executor
