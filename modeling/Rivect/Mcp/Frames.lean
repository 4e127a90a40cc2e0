import Rivect.Lib.Framing
import Rivect.Mcp.Reason

/-! # The reader of the server's answers

The reader thread splits what it reads into newline-terminated frames. It tests the size bound on
everything it holds, and before it splits it: what follows a frame in the same read counts against
that frame.
-/

namespace Rivect.Mcp

open Lib List

abbrev Byte := UInt8

def newline : Byte := 10

def mcpFrameMaxBytes : ℕ := 64 * 1024

/-- The size of the reader's scratch buffer. -/
def scratchBytes : ℕ := 4096

/-- What the reader thread delivered. -/
inductive Frame where
  | line (bytes : List Byte)
  | eof
  | failed (reason : McpReason)
deriving DecidableEq

/-- A failure of the reader is one of three. -/
def Frame.Read : Frame → Prop
  | .failed reason => reason ∈ [McpReason.readUnavailable, .frameOverBound, .readFailed]
  | _ => True

instance (frame : Frame) : Decidable frame.Read := by
  cases frame <;> unfold Frame.Read <;> infer_instance

/-- A frame as the reader delivers one. -/
abbrev ReadFrame := { frame : Frame // frame.Read }

/-- What one read of the pipe gives. -/
inductive PipeRead where
  | bytes (read : List Byte)
  | wouldBlock (ready : Bool)
  | interrupted
  | failed
deriving DecidableEq

/-- One turn of the reader's loop. -/
structure ReadTurn where
  stop : Bool
  read : PipeRead
deriving DecidableEq

/-- How the queue answers one more frame. -/
inductive TrySend where
  | ok
  | full
  | disconnected
deriving DecidableEq

/-- The queue's answer, by what was delivered before. -/
abbrev FrameQueue := List Frame → TrySend

structure Delivered where
  frames : List Frame
  overflow : Bool
deriving DecidableEq

def deliver (queue : FrameQueue) (frame : Frame) (sent : Delivered) : Bool × Delivered :=
  match queue sent.frames with
  | .ok => (true, { sent with frames := sent.frames ++ [frame] })
  | .full => (false, { sent with overflow := true })
  | .disconnected => (false, sent)

/-- Every complete line of the buffer, until the queue refuses one. -/
def deliverLines (queue : FrameQueue) : List (List Byte) → Delivered → Bool × Delivered
  | [], sent => (true, sent)
  | line :: lines, sent =>
    match deliver queue (.line line) sent with
    | (true, sent) => deliverLines queue lines sent
    | (false, sent) => (false, sent)

/-- The complete lines of a buffer, with their newlines. -/
def linesOf (pending : List Byte) : List (List Byte) :=
  (cut newline pending).1.map (· ++ [newline])

/-- What follows the last newline. -/
def unfinished (pending : List Byte) : List Byte := (cut newline pending).2

/-- The reader's loop; where the turns end it is still running. -/
def readLoop (queue : FrameQueue) : List ReadTurn → List Byte → Delivered → Delivered
  | [], _, sent => sent
  | turn :: turns, pending, sent =>
    if turn.stop then sent
    else match turn.read with
      | .bytes [] => (deliver queue .eof sent).2
      | .bytes read =>
        if mcpFrameMaxBytes < (pending ++ read).length then
          (deliver queue (.failed .frameOverBound) sent).2
        else match deliverLines queue (linesOf (pending ++ read)) sent with
          | (true, sent) => readLoop queue turns (unfinished (pending ++ read)) sent
          | (false, sent) => sent
      | .wouldBlock true => readLoop queue turns pending sent
      | .wouldBlock false => (deliver queue (.failed .readUnavailable) sent).2
      | .interrupted => readLoop queue turns pending sent
      | .failed => (deliver queue (.failed .readFailed) sent).2

/-- The reader thread; the pipe may refuse to be made nonblocking. -/
def readFrames (queue : FrameQueue) (nonblocking : Bool) (turns : List ReadTurn) : Delivered :=
  if nonblocking then readLoop queue turns [] ⟨[], false⟩
  else (deliver queue (.failed .readUnavailable) ⟨[], false⟩).2

/-! ## A stream read in pieces -/

/-- A turn that hands over some bytes, or none yet. -/
def ReadTurn.Arrives (turn : ReadTurn) : Prop :=
  turn.stop = false ∧ match turn.read with
    | .bytes read => 1 ≤ read.length ∧ read.length ≤ scratchBytes
    | .wouldBlock ready => ready = true
    | .interrupted => True
    | .failed => False

def ReadTurn.arrived (turn : ReadTurn) : List Byte :=
  match turn.read with
  | .bytes read => read
  | _ => []

def arrivedBy (turns : List ReadTurn) : List Byte := turns.flatMap ReadTurn.arrived

def endOfFile : ReadTurn := ⟨false, .bytes []⟩

def Fits (line : List Byte) : Prop := line.length ≤ mcpFrameMaxBytes

instance (line : List Byte) : Decidable (Fits line) := inferInstanceAs (Decidable (_ ≤ _))

/-- What a reader that looks at whole lines only delivers of a stream. -/
def framesOf (stream : List Byte) : List Frame :=
  let lines := linesOf stream
  if ∀ line ∈ lines, Fits line then lines.map .line ++ [.eof]
  else (lines.takeWhile (Fits ·)).map .line ++ [.failed .frameOverBound]

/-- A read that takes what is held over the bound, after lines that are all within it, continues
a line that is itself over the bound. -/
def Paced (turns : List ReadTurn) : Prop :=
  ∀ before turn after, turns = before ++ turn :: after →
    (∀ line ∈ linesOf (arrivedBy before), Fits line) →
    mcpFrameMaxBytes < (unfinished (arrivedBy before) ++ turn.arrived).length →
    mcpFrameMaxBytes ≤ ((unfinished (arrivedBy before) ++ arrivedBy (turn :: after)).takeWhile
      (· ≠ newline)).length

section
variable {queue : FrameQueue} {sent : Delivered} {pending held : List Byte}
  {turns : List ReadTurn} {turn : ReadTurn}

theorem deliver_ok (hqueue : ∀ sent, queue sent = .ok) (frame : Frame) (sent : Delivered) :
    deliver queue frame sent = (true, { sent with frames := sent.frames ++ [frame] }) := by
  rw [deliver, hqueue]

theorem deliverLines_ok (hqueue : ∀ sent, queue sent = .ok) (lines : List (List Byte))
    (sent : Delivered) :
    deliverLines queue lines sent =
      (true, { sent with frames := sent.frames ++ lines.map .line }) := by
  induction lines generalizing sent with
  | nil => simp [deliverLines]
  | cons line lines ih =>
    rw [deliverLines, deliver_ok hqueue]
    simp [ih]

theorem linesOf_append (held more : List Byte) :
    linesOf (held ++ more) = linesOf held ++ linesOf (unfinished held ++ more) := by
  rw [linesOf, cut_append, map_append]
  rfl

theorem unfinished_append (held more : List Byte) :
    unfinished (held ++ more) = unfinished (unfinished held ++ more) := by
  rw [unfinished, cut_append]
  rfl

theorem linesOf_unfinished (pending : List Byte) : linesOf (unfinished pending) = [] := by
  rw [linesOf, unfinished, cut_left]
  rfl

theorem unfinished_of_no_line (h : linesOf pending = []) : unfinished pending = pending :=
  left_of_no_frame (map_eq_nil_iff.mp h)

theorem linesOf_ended (h : linesOf pending = []) (rest : List Byte) :
    linesOf (pending ++ newline :: rest) = (pending ++ [newline]) :: linesOf rest := by
  rw [linesOf, cut_ended (map_eq_nil_iff.mp h)]
  rfl

theorem unfinished_ended (h : linesOf pending = []) (rest : List Byte) :
    unfinished (pending ++ newline :: rest) = unfinished rest := by
  rw [unfinished, cut_ended (map_eq_nil_iff.mp h)]
  rfl

theorem length_of_line {line : List Byte} (h : line ∈ linesOf pending) :
    line.length ≤ pending.length := by
  obtain ⟨body, hbody, rfl⟩ := mem_map.mp h
  rw [length_append, length_singleton]
  exact length_of_frame hbody

/-- The first line is what stands before the first newline. -/
theorem head_line {line : List Byte} {lines : List (List Byte)}
    (h : linesOf pending = line :: lines) :
    line = pending.takeWhile (· ≠ newline) ++ [newline] := by
  obtain ⟨body, bodies, hcut, rfl, -⟩ := map_eq_cons_iff.mp h
  rw [head_frame hcut]

/-! ### What a whole stream is read as -/

theorem framesOf_fitting (h : ∀ line ∈ linesOf held, Fits line) (more : List Byte) :
    framesOf (held ++ more) =
      (linesOf held).map .line ++ framesOf (unfinished held ++ more) := by
  have hsplit : (∀ line ∈ linesOf (held ++ more), Fits line) ↔
      ∀ line ∈ linesOf (unfinished held ++ more), Fits line := by
    simp only [linesOf_append held more, mem_append]
    exact ⟨fun hall line hline => hall line (.inr hline),
      fun hrest line hline => hline.elim (h line) (hrest line)⟩
  simp only [framesOf]
  rw [linesOf_append held more] at hsplit ⊢
  by_cases hrest : ∀ line ∈ linesOf (unfinished held ++ more), Fits line
  · rw [if_pos (hsplit.mpr hrest), if_pos hrest, map_append, append_assoc]
  · rw [if_neg (fun hall => hrest (hsplit.mp hall)), if_neg hrest, takeWhile_append_of_pos
      (by simpa using h), map_append, append_assoc]

/-- The stream is refused at once where its first line is over the bound, and only there. -/
theorem framesOf_refused {line : List Byte} {lines : List (List Byte)}
    (h : linesOf pending = line :: lines) :
    framesOf pending = [.failed .frameOverBound] ↔
      mcpFrameMaxBytes ≤ (pending.takeWhile (· ≠ newline)).length := by
  have hfits : Fits line ↔ ¬ mcpFrameMaxBytes ≤ (pending.takeWhile (· ≠ newline)).length := by
    rw [head_line h, Fits, length_append, length_singleton]
    omega
  simp only [framesOf, h]
  by_cases hfirst : Fits line
  · refine iff_of_false ?_ (hfits.mp hfirst)
    split <;> simp [hfirst]
  · refine iff_of_true ?_ (not_not.mp (mt hfits.mpr hfirst))
    rw [if_neg (fun hall => hfirst (hall line mem_cons_self))]
    simp [hfirst]

/-- `Paced` for a reader that already holds some bytes. -/
def PacedFrom (pending : List Byte) (turns : List ReadTurn) : Prop :=
  ∀ before turn after, turns = before ++ turn :: after →
    (∀ line ∈ linesOf (pending ++ arrivedBy before), Fits line) →
    mcpFrameMaxBytes < (unfinished (pending ++ arrivedBy before) ++ turn.arrived).length →
    mcpFrameMaxBytes ≤ ((unfinished (pending ++ arrivedBy before) ++
      arrivedBy (turn :: after)).takeWhile (· ≠ newline)).length

@[simp] theorem arrivedBy_cons (turn : ReadTurn) (turns : List ReadTurn) :
    arrivedBy (turn :: turns) = turn.arrived ++ arrivedBy turns := rfl

/-- A read that keeps within the bound leaves the rest of the stream to the reads after it. -/
theorem pacedFrom_within (hwithin : (pending ++ turn.arrived).length ≤ mcpFrameMaxBytes)
    (hheld : linesOf pending = []) :
    PacedFrom pending (turn :: turns) ↔
      PacedFrom (unfinished (pending ++ turn.arrived)) turns := by
  have hfits : ∀ line ∈ linesOf (pending ++ turn.arrived), Fits line := fun line hline =>
    Nat.le_trans (length_of_line hline) hwithin
  have hlines : ∀ before, (∀ line ∈ linesOf (pending ++ arrivedBy (turn :: before)), Fits line) ↔
      ∀ line ∈ linesOf (unfinished (pending ++ turn.arrived) ++ arrivedBy before), Fits line := by
    intro before
    rw [arrivedBy_cons, ← append_assoc, linesOf_append]
    simp only [mem_append]
    exact ⟨fun hall line hline => hall line (.inr hline),
      fun hrest line hline => hline.elim (hfits line) (hrest line)⟩
  have hleft : ∀ before, unfinished (pending ++ arrivedBy (turn :: before)) =
      unfinished (unfinished (pending ++ turn.arrived) ++ arrivedBy before) := by
    intro before
    rw [arrivedBy_cons, ← append_assoc, unfinished_append]
  constructor
  · intro h before next after hturns hall hover
    have := h (turn :: before) next after (by rw [hturns]; rfl) ((hlines before).mpr hall)
    rw [hleft] at this
    exact this hover
  · intro h before next after hturns hall hover
    cases before with
    | nil =>
      obtain ⟨rfl, rfl⟩ := List.cons.inj hturns
      simp only [arrivedBy, flatMap_nil, append_nil, unfinished_of_no_line hheld]
        at hover
      omega
    | cons first before =>
      obtain ⟨rfl, rfl⟩ := List.cons.inj hturns
      rw [hleft] at hover ⊢
      exact h before next after rfl ((hlines before).mp hall) hover

/-- A read that takes the buffer over the bound decides by the line it continues. -/
theorem pacedFrom_over (hover : mcpFrameMaxBytes < (pending ++ turn.arrived).length)
    (hheld : linesOf pending = []) :
    PacedFrom pending (turn :: turns) ↔ mcpFrameMaxBytes ≤
      ((pending ++ arrivedBy (turn :: turns)).takeWhile (· ≠ newline)).length := by
  constructor
  · intro h
    have := h [] turn turns rfl
    simp only [arrivedBy, flatMap_nil, append_nil, unfinished_of_no_line hheld, hheld]
      at this
    exact this (fun line hline => by cases hline) hover
  · intro h before next after hturns hall _
    have hstream : pending ++ arrivedBy (turn :: turns) =
        (pending ++ arrivedBy before) ++ arrivedBy (next :: after) := by
      rw [hturns, arrivedBy, flatMap_append, ← append_assoc]
      rfl
    cases hlines : linesOf (pending ++ arrivedBy before) with
    | nil => rwa [unfinished_of_no_line hlines, ← hstream]
    | cons line lines =>
      -- A whole line within the bound cannot begin a stream whose first line is over it.
      have hfirst := hall line (by rw [hlines]; exact mem_cons_self)
      have hfront : linesOf (pending ++ arrivedBy (turn :: turns)) = line :: (lines ++
          linesOf (unfinished (pending ++ arrivedBy before) ++ arrivedBy (next :: after))) := by
        rw [hstream, linesOf_append, hlines]
        rfl
      rw [Fits, head_line hfront, length_append, length_singleton] at hfirst
      omega

theorem exists_line (hended : unfinished pending = []) (hnonempty : pending ≠ []) :
    ∃ line lines, linesOf pending = line :: lines := by
  cases hlines : linesOf pending with
  | nil => exact absurd ((unfinished_of_no_line hlines).symm.trans hended) hnonempty
  | cons line lines => exact ⟨line, lines, rfl⟩

/-! ### The reader's loop -/

theorem readLoop_quiet (hstop : turn.stop = false)
    (hread : turn.read = .wouldBlock true ∨ turn.read = .interrupted) :
    readLoop queue (turn :: turns) pending sent = readLoop queue turns pending sent := by
  rw [readLoop, hstop]
  rcases hread with hread | hread <;> rw [hread] <;> rfl

section

variable (hqueue : ∀ sent, queue sent = .ok)
include hqueue

theorem readLoop_bytes {read : List Byte}
    (hstop : turn.stop = false) (hread : turn.read = .bytes read) (hsome : read ≠ []) :
    readLoop queue (turn :: turns) pending sent =
      if mcpFrameMaxBytes < (pending ++ turn.arrived).length then
        { sent with frames := sent.frames ++ [.failed .frameOverBound] }
      else readLoop queue turns (unfinished (pending ++ turn.arrived))
        { sent with frames := sent.frames ++ (linesOf (pending ++ turn.arrived)).map .line } := by
  have harrived : turn.arrived = read := by rw [ReadTurn.arrived, hread]
  rw [readLoop, hstop, hread, harrived]
  cases read with
  | nil => exact absurd rfl hsome
  | cons b read => simp [deliver_ok hqueue, deliverLines_ok hqueue]

theorem readLoop_endOfFile :
    readLoop queue [endOfFile] pending sent =
      { sent with frames := sent.frames ++ [.eof] } := by
  simp [readLoop, endOfFile, deliver_ok hqueue]

/-- Taking the reader up where it holds the start of a line, the frames still to come are those
of the stream exactly where the reads to come are paced. -/
theorem readLoop_iff (harrives : ∀ turn ∈ turns, turn.Arrives)
    (hheld : linesOf pending = []) (hwithin : pending.length ≤ mcpFrameMaxBytes)
    (hended : unfinished (pending ++ arrivedBy turns) = []) :
    (readLoop queue (turns ++ [endOfFile]) pending sent).frames =
        sent.frames ++ framesOf (pending ++ arrivedBy turns) ↔
      PacedFrom pending turns := by
  induction turns generalizing pending sent with
  | nil =>
    have hnone : pending = [] := by
      simpa [arrivedBy, unfinished_of_no_line hheld] using hended
    refine iff_of_true ?_ (fun before turn after hturns => by simp at hturns)
    rw [nil_append, readLoop_endOfFile hqueue, hnone]
    rfl
  | cons turn turns ih =>
    obtain ⟨hstop, hread⟩ := harrives turn mem_cons_self
    have hrest : ∀ turn ∈ turns, turn.Arrives := fun turn hturn =>
      harrives turn (mem_cons_of_mem _ hturn)
    have hquiet : turn.arrived = [] →
        (turn.read = .wouldBlock true ∨ turn.read = .interrupted) →
        ((readLoop queue (turn :: turns ++ [endOfFile]) pending sent).frames =
            sent.frames ++ framesOf (pending ++ arrivedBy (turn :: turns)) ↔
          PacedFrom pending (turn :: turns)) := by
      intro hnone hread
      rw [arrivedBy_cons, hnone, nil_append] at hended ⊢
      rw [cons_append, readLoop_quiet hstop hread,
        pacedFrom_within (by rwa [hnone, append_nil]) hheld, hnone, append_nil,
        unfinished_of_no_line hheld]
      exact ih hrest hheld hwithin hended
    cases hcase : turn.read with
    | wouldBlock ready =>
      rw [hcase] at hread
      exact hquiet (by rw [ReadTurn.arrived, hcase]) (.inl (by rw [hcase, hread]))
    | interrupted => exact hquiet (by rw [ReadTurn.arrived, hcase]) (.inr hcase)
    | failed => rw [hcase] at hread; exact hread.elim
    | bytes read =>
      rw [hcase] at hread
      have harrived : turn.arrived = read := by rw [ReadTurn.arrived, hcase]
      have hsome : read ≠ [] := ne_nil_of_length_pos hread.1
      rw [cons_append, readLoop_bytes hqueue hstop hcase hsome]
      by_cases hover : mcpFrameMaxBytes < (pending ++ turn.arrived).length
      · rw [if_pos hover, pacedFrom_over hover hheld]
        obtain ⟨line, lines, hlines⟩ := exists_line hended (by
          rw [arrivedBy_cons, harrived]
          simp [hsome])
        rw [← framesOf_refused hlines]
        simp only [append_cancel_left_eq]
        exact eq_comm
      · rw [if_neg hover, pacedFrom_within (Nat.not_lt.mp hover) hheld, arrivedBy_cons,
          ← append_assoc]
        have hfits : ∀ line ∈ linesOf (pending ++ turn.arrived), Fits line := fun line hline =>
          Nat.le_trans (length_of_line hline) (Nat.not_lt.mp hover)
        rw [arrivedBy_cons, ← append_assoc, unfinished_append] at hended
        have hshort : (unfinished (pending ++ turn.arrived)).length ≤ mcpFrameMaxBytes :=
          Nat.le_trans (length_left _) (Nat.not_lt.mp hover)
        have := @ih { sent with
          frames := sent.frames ++ (linesOf (pending ++ turn.arrived)).map .line }
          (unfinished (pending ++ turn.arrived)) hrest (linesOf_unfinished _) hshort hended
        rw [framesOf_fitting hfits, ← append_assoc]
        exact this

/-- The reader delivers the frames of a stream however it is cut into reads, exactly where the
reads are paced. -/
theorem readFrames_iff
    (harrives : ∀ turn ∈ turns, turn.Arrives) (hended : unfinished (arrivedBy turns) = []) :
    (readFrames queue true (turns ++ [endOfFile])).frames = framesOf (arrivedBy turns) ↔
      Paced turns :=
  @readLoop_iff queue ⟨[], false⟩ [] turns hqueue harrives rfl (Nat.zero_le _) hended

end

end

/-- The same reads of one line, in one piece and in two. -/
theorem readFrames_iff_line :
    (readFrames (fun _ => .ok) true ([⟨false, .bytes [123]⟩, ⟨false, .bytes [125, 10]⟩] ++
        [endOfFile])).frames = framesOf (arrivedBy [⟨false, .bytes [123]⟩,
          ⟨false, .bytes [125, 10]⟩]) ↔
      Paced [⟨false, .bytes [123]⟩, ⟨false, .bytes [125, 10]⟩] :=
  readFrames_iff (fun _ => rfl) (by simp [ReadTurn.Arrives, scratchBytes]) (by decide)

/-- A line that fills the bound is refused with any line that comes in the read that ends it. -/
theorem full_line_refused {turns : List ReadTurn} (harrives : ∀ turn ∈ turns, turn.Arrives)
    (hbody : linesOf (arrivedBy turns) = [])
    (hfull : (arrivedBy turns).length + 1 = mcpFrameMaxBytes) :
    framesOf (arrivedBy (turns ++ [⟨false, .bytes [newline, newline]⟩])) =
        [.line (arrivedBy turns ++ [newline]), .line [newline], .eof] ∧
      (readFrames (fun _ => .ok) true
          (turns ++ [⟨false, .bytes [newline, newline]⟩] ++ [endOfFile])).frames ≠
        framesOf (arrivedBy (turns ++ [⟨false, .bytes [newline, newline]⟩])) := by
  have hstream : arrivedBy (turns ++ [⟨false, .bytes [newline, newline]⟩]) =
      arrivedBy turns ++ [newline, newline] := flatMap_append
  have hlines : linesOf (arrivedBy turns ++ [newline, newline]) =
      [arrivedBy turns ++ [newline], [newline]] := linesOf_ended hbody [newline]
  have hended : unfinished (arrivedBy turns ++ [newline, newline]) = [] :=
    unfinished_ended hbody [newline]
  refine ⟨?_, fun heq => ?_⟩
  · have hfits : ∀ line ∈ linesOf (arrivedBy turns ++ [newline, newline]), Fits line := by
      simp only [hlines, mem_cons, not_mem_nil, or_false, Fits]
      rintro line (rfl | rfl)
      · exact Nat.le_of_eq (by rw [length_append, length_singleton, hfull])
      · decide
    rw [hstream, framesOf, if_pos hfits, hlines]
    rfl
  · have hall : ∀ turn ∈ turns ++ [⟨false, .bytes [newline, newline]⟩], turn.Arrives := by
      intro turn hturn
      rcases mem_append.mp hturn with hturn | hturn
      · exact harrives turn hturn
      · rw [mem_singleton.mp hturn]
        exact ⟨rfl, by decide⟩
    have hpaced := (@readLoop_iff _ ⟨[], false⟩ [] _ (fun _ => rfl) hall rfl
      (Nat.zero_le _) (by rwa [nil_append, hstream])).mp heq turns _ [] rfl
    rw [nil_append, unfinished_of_no_line hbody, hbody] at hpaced
    have hlong := hpaced (fun line hline => by cases hline) (by
      rw [length_append, ← hfull]
      exact Nat.lt_succ_self _)
    have hclean : (arrivedBy turns ++ newline :: [newline]).takeWhile (· ≠ newline) =
        arrivedBy turns :=
      (append_cancel_right (head_line (linesOf_ended hbody [newline]))).symm
    rw [show arrivedBy [⟨false, .bytes [newline, newline]⟩] = newline :: [newline] from rfl,
      hclean] at hlong
    omega

/-- All but the newline of the longest line there may be, in reads of the largest size. -/
def longestBody : List ReadTurn :=
  List.replicate 15 ⟨false, .bytes (List.replicate 4096 97)⟩ ++
    [⟨false, .bytes (List.replicate 4095 97)⟩]

theorem arrivedBy_longestBody : arrivedBy longestBody = List.replicate 65535 97 := by
  rw [longestBody, arrivedBy, flatMap_append, flatMap_replicate]
  simp only [ReadTurn.arrived, flatMap_singleton, flatten_replicate_replicate,
    replicate_append_replicate]

theorem linesOf_replicate (n : ℕ) : linesOf (List.replicate n 97) = [] := by
  induction n with
  | zero => rfl
  | succ n ih =>
    rw [linesOf, map_eq_nil_iff] at ih ⊢
    rw [replicate_succ, cut, if_neg (by decide), ih]

/-- The longest line there may be and an empty one, which comes in the read that ends it, are
refused. -/
theorem longest_line_refused :
    (∀ turn ∈ longestBody ++ [⟨false, .bytes [newline, newline]⟩], turn.Arrives) ∧
      framesOf (arrivedBy (longestBody ++ [⟨false, .bytes [newline, newline]⟩])) =
        [.line (arrivedBy longestBody ++ [newline]), .line [newline], .eof] ∧
      (readFrames (fun _ => .ok) true
          (longestBody ++ [⟨false, .bytes [newline, newline]⟩] ++ [endOfFile])).frames ≠
        framesOf (arrivedBy (longestBody ++ [⟨false, .bytes [newline, newline]⟩])) := by
  have hlongest : ∀ turn ∈ longestBody, turn.Arrives := by
    intro turn hturn
    have hsizes : 1 ≤ 4096 ∧ 4096 ≤ scratchBytes ∧ 1 ≤ 4095 ∧ 4095 ≤ scratchBytes := by decide
    rcases mem_append.mp hturn with hturn | hturn
    · rw [eq_of_mem_replicate hturn]
      refine ⟨rfl, ?_⟩
      change 1 ≤ (List.replicate 4096 _).length ∧ (List.replicate 4096 _).length ≤ scratchBytes
      rw [length_replicate]
      exact ⟨hsizes.1, hsizes.2.1⟩
    · rw [mem_singleton.mp hturn]
      refine ⟨rfl, ?_⟩
      change 1 ≤ (List.replicate 4095 _).length ∧ (List.replicate 4095 _).length ≤ scratchBytes
      rw [length_replicate]
      exact hsizes.2.2
  refine ⟨fun turn hturn => ?_, full_line_refused hlongest ?_ ?_⟩
  · rcases mem_append.mp hturn with hturn | hturn
    · exact hlongest turn hturn
    · rw [mem_singleton.mp hturn]
      exact ⟨rfl, by decide⟩
  · rw [arrivedBy_longestBody, linesOf_replicate]
  · rw [arrivedBy_longestBody, length_replicate]
    rfl

end Rivect.Mcp
