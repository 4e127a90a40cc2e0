import Rivect.Sandbox.StatusText

/-! # The status of a task

`parent_status` reads four fields of one text, in any order of its lines, and accepts the task that
nobody traces.
-/

namespace Rivect.Sandbox

open Lib List Option
open EffectPolicy (Text ascii LF SPACE)

variable {bytes value : Text} {lines earlier later : List Text} {fields : StatusFields}
  {field : StatusField} {n tid pid threads : ℕ}

def StatusField.keys : List Text := StatusField.all.map StatusField.key

theorem StatusField.mem_keys (field : StatusField) : field.key ∈ StatusField.keys := by
  cases field <;> decide

theorem StatusField.ext_key {field other : StatusField} (h : field.key = other.key) :
    field = other := by
  cases field <;> cases other <;> first | rfl | exact absurd h (by decide)

theorem keys_start {field other : StatusField}
    (h : other.key.isPrefixOf (field.key ++ value) = true) : other = field := by
  cases field <;> cases other <;> first | rfl | exact absurd h (by simp [StatusField.key, ascii])

theorem keys_apart : Apart StatusField.keys where
  noLF := by decide
  apart := by
    intro key hkey other hother value hprefix
    obtain ⟨field, -, rfl⟩ := mem_map.mp hkey
    obtain ⟨other, -, rfl⟩ := mem_map.mp hother
    rw [keys_start hprefix]

theorem statusField_eq {line : Text} (h : statusField line = some (field, value)) :
    line = field.key ++ value := by
  obtain ⟨other, -, hother⟩ := exists_of_findSome?_eq_some h
  obtain ⟨v, hv, hpair⟩ := map_eq_some_iff.mp hother
  obtain ⟨rfl, rfl⟩ := Prod.mk.inj hpair
  exact stripPrefix_eq.mp hv

theorem keyed_unnamed {line : Text} (h : statusField line = none) (field : StatusField) :
    keyed field.key [line] = [] := by
  refine eq_nil_iff_forall_not_mem.mpr fun l hl => ?_
  obtain ⟨hmem, value, rfl⟩ := mem_keyed.mp hl
  have hnone := findSome?_eq_none_iff.mp h field (by cases field <;> decide)
  rw [← mem_singleton.mp hmem, stripPrefix_eq.mpr rfl] at hnone
  cases hnone

/-! ## The scan -/

/-- The fields hold what the lines say of them, and nobody traces the task. -/
structure Scanned (lines : List Text) (fields : StatusFields) : Prop where
  absent : ∀ field, fields field = none → keyed field.key lines = []
  stated : ∀ field n, fields field = some n →
    ∃ value, keyed field.key lines = [field.key ++ value] ∧ Spells value n
  untraced : ∀ n, fields .tracerPid = some n → n = 0

theorem scanned_nil : Scanned [] fun _ => none where
  absent := fun _ _ => rfl
  stated := by simp
  untraced := by simp

theorem Scanned.sound (h : Scanned lines fields) : SoundLines StatusField.keys lines := by
  intro key hkey
  obtain ⟨field, -, rfl⟩ := mem_map.mp hkey
  cases hfield : fields field with
  | none =>
    have hnone := h.absent field hfield
    refine ⟨by rw [hnone]; exact Nat.zero_le 1, fun v hv => ?_⟩
    have hmem := mem_keyed.mpr ⟨hv, v, rfl⟩
    rw [hnone] at hmem
    cases hmem
  | some n =>
    obtain ⟨value, hkeyed, hvalue⟩ := h.stated field n hfield
    refine ⟨by rw [hkeyed]; exact Nat.le_refl 1, fun v hv => ⟨n, ?_⟩⟩
    have hmem := mem_keyed.mpr ⟨hv, v, rfl⟩
    rw [hkeyed, mem_singleton] at hmem
    exact append_cancel_left hmem ▸ hvalue

theorem Scanned.pass {line : Text} (h : Scanned lines fields) (hline : statusField line = none) :
    Scanned (lines ++ [line]) fields where
  absent := fun field hfield => by
    rw [keyed_append, keyed_unnamed hline, append_nil, h.absent field hfield]
  stated := fun field n hfield => by
    rw [keyed_append, keyed_unnamed hline, append_nil]
    exact h.stated field n hfield
  untraced := h.untraced

theorem Scanned.update (h : Scanned lines fields) (hfresh : fields field = none)
    (hvalue : Spells value n) (htracer : ¬ (field = .tracerPid ∧ n ≠ 0)) :
    Scanned (lines ++ [field.key ++ value]) (Function.update fields field (some n)) := by
  have hother : ∀ other, other ≠ field →
      keyed other.key (lines ++ [field.key ++ value]) = keyed other.key lines := by
    intro other hne
    have hnone := keys_apart.keyed_other field.mem_keys other.mem_keys
      (fun h => hne (StatusField.ext_key h)) value
    rw [keyed_append, hnone, append_nil]
  refine ⟨?_, ?_, ?_⟩
  · intro other hnone
    by_cases heq : other = field
    · rw [heq, Function.update_self] at hnone
      cases hnone
    · rw [Function.update_of_ne heq] at hnone
      rw [hother other heq]
      exact h.absent other hnone
  · intro other m hsome
    by_cases heq : other = field
    · subst heq
      rw [Function.update_self] at hsome
      obtain rfl := some.inj hsome
      refine ⟨value, ?_, hvalue⟩
      rw [keyed_append, h.absent other hfresh, keyed_own]
      rfl
    · rw [Function.update_of_ne heq] at hsome
      rw [hother other heq]
      exact h.stated other m hsome
  · intro m hsome
    by_cases heq : StatusField.tracerPid = field
    · subst heq
      rw [Function.update_self] at hsome
      obtain rfl := some.inj hsome
      by_contra hzero
      exact htracer ⟨rfl, hzero⟩
    · rw [Function.update_of_ne heq] at hsome
      exact h.untraced m hsome

/-- Why a scan of a text stops. -/
inductive ScanRefused (bytes : Text) : ParentFailed → Prop
  | twice (field : StatusField) {count : ℕ} (htwo : 2 ≤ count)
      (hcount : count = (keyed field.key (splitInclusive LF bytes)).length) :
      ScanRefused bytes
        (.refused "owned.parent.task_status" (.duplicate field.code (UInt64.ofNat count)))
  | at (field : StatusField) {offset : ℕ} {cause : OwnedFaultCause}
      (hpoints : cause.PointsAt field.code offset)
      (hoffset : FirstOffending StatusField.keys bytes offset) :
      ScanRefused bytes (.refused "owned.parent.task_status" cause)
  | traced {value : Text} {n : ℕ} (hn : n ≠ 0)
      (hline : StatusField.tracerPid.key ++ value ∈ splitInclusive LF bytes)
      (hvalue : Spells value n) :
      ScanRefused bytes (.refused "owned.parent.tracer" (.readback 2 (Int64.ofNat n)))

theorem readField_within
    (hlines : splitInclusive LF bytes = earlier ++ (field.key ++ value) :: later)
    (h : Scanned earlier fields) :
    Within (ScanRefused bytes) (Scanned (earlier ++ [field.key ++ value]))
      (readField bytes fields earlier.flatten.length field value) := by
  refine Within.bind (Within.require fun hdup => ?_) fun _ hfresh => ?_
  · obtain ⟨n, hn⟩ := ne_none_iff_exists'.mp hdup
    obtain ⟨first, hfirst, -⟩ := h.stated field n hn
    rw [countP_eq_length_filter]
    refine .twice field ?_ rfl
    change 2 ≤ (keyed field.key (splitInclusive LF bytes)).length
    rw [hlines, append_cons, keyed_append, keyed_append, hfirst, keyed_own]
    simp only [length_append, length_singleton]
    omega
  · have hfree : LF ∉ value.dropLast := by
      intro hmem
      have hne : value ≠ [] := by
        rintro rfl
        cases hmem
      obtain ⟨-, -, hnewline⟩ := splitInclusive_pieces hlines
      rw [dropLast_append_of_ne_nil hne] at hnewline
      exact hnewline (mem_append_right _ hmem)
    refine Within.bind (Within.mapError (parentDecimal_within hfree) ?_) fun number hnumber => ?_
    · rintro e ⟨cause, cursor, rfl, hstops, hpoints⟩
      exact .at field hpoints (firstOffending_of_stops keys_apart field.mem_keys hlines h.sound
        (h.absent field hfresh) hstops)
    · refine Within.bind (Within.require fun htraced => ?_) fun _ hclear => ?_
      · obtain ⟨rfl, hzero⟩ := not_not.mp htraced
        exact .traced hzero (by rw [hlines]; simp) hnumber
      · exact h.update hfresh hnumber hclear

theorem scanLines_within {todo : List Text} (hlines : splitInclusive LF bytes = earlier ++ todo)
    (h : Scanned earlier fields) :
    Within (ScanRefused bytes) (Scanned (splitInclusive LF bytes))
      (scanLines bytes fields earlier.flatten.length todo) := by
  induction todo generalizing earlier fields with
  | nil =>
    rw [append_nil] at hlines
    rw [hlines]
    exact h
  | cons line todo ih =>
    have hnext : splitInclusive LF bytes = (earlier ++ [line]) ++ todo := by
      rw [hlines, append_cons]
    have hoffset : earlier.flatten.length + line.length = (earlier ++ [line]).flatten.length := by
      rw [flatten_append, flatten_singleton, length_append]
    rw [scanLines, hoffset]
    split
    · rename_i hline
      exact ih hnext (h.pass hline)
    · rename_i field value hline
      obtain rfl := statusField_eq hline
      exact (readField_within hlines h).bind fun fields' h' => ih hnext h'

/-! ## The whole status -/

/-- The text names an untraced task: its thread, its group and how many threads it has. -/
structure Accepted (bytes : Text) (tid pid threads : ℕ) : Prop where
  thread : Named StatusField.pid.key bytes tid
  group : Named StatusField.tgid.key bytes pid
  untraced : Named StatusField.tracerPid.key bytes 0
  threads : Named StatusField.threads.key bytes threads

/-- What `parent_status` says of a text that it refuses. -/
inductive TaskRefused (tid pid : ℕ) (bytes : Text) : ParentFailed → Prop
  | scan {e : ParentFailed} (hscan : ScanRefused bytes e) : TaskRefused tid pid bytes e
  | open (hopen : ¬ Terminated bytes) : TaskRefused tid pid bytes
      (.refused "owned.parent.task_status"
        (.earlyEof 9 (UInt64.ofNat (bytes.length + 1)) (UInt64.ofNat bytes.length)))
  | absent (field : StatusField) (hnone : keyed field.key (splitInclusive LF bytes) = []) :
      TaskRefused tid pid bytes (.refused "owned.parent.task_status" (.missing field.code))
  | identity (hother : ¬ (Named StatusField.pid.key bytes tid ∧
      Named StatusField.tgid.key bytes pid)) :
      TaskRefused tid pid bytes (.refused "owned.parent.task_identity" (.unverifiable 7))

theorem Accepted.named (h : Accepted bytes tid pid threads) (field : StatusField) :
    ∃ n, Named field.key bytes n ∧ (field = .tracerPid → n = 0) := by
  cases field with
  | pid => exact ⟨tid, h.thread, fun h => by cases h⟩
  | tgid => exact ⟨pid, h.group, fun h => by cases h⟩
  | tracerPid => exact ⟨0, h.untraced, fun _ => rfl⟩
  | threads => exact ⟨threads, h.threads, fun h => by cases h⟩

theorem Accepted.sound (h : Accepted bytes tid pid threads) : Sound StatusField.keys bytes := by
  refine ⟨h.thread.1, fun key hkey => ?_⟩
  obtain ⟨field, -, rfl⟩ := mem_map.mp hkey
  obtain ⟨n, hnamed, -⟩ := h.named field
  exact hnamed.sound.2 _ (mem_singleton_self _)

theorem TaskRefused.not_accepted {e : ParentFailed} (h : TaskRefused tid pid bytes e) :
    ¬ Accepted bytes tid pid threads := by
  intro haccepted
  cases h with
  | scan hscan =>
    cases hscan with
    | twice field htwo hcount =>
      obtain ⟨n, ⟨-, value, hkeyed, -⟩, -⟩ := haccepted.named field
      rw [hkeyed] at hcount
      simp only [length_singleton] at hcount
      omega
    | «at» field _ hoffset => exact hoffset.2.2.1 haccepted.sound
    | traced hn hline hvalue =>
      obtain ⟨-, value, hkeyed, hzero⟩ := haccepted.untraced
      have hmem := mem_keyed.mpr ⟨hline, _, rfl⟩
      rw [hkeyed, mem_singleton] at hmem
      rw [append_cancel_left hmem] at hvalue
      exact hn (hvalue.unique hzero)
  | «open» hopen => exact hopen haccepted.thread.1
  | absent field hnone =>
    obtain ⟨n, ⟨-, value, hkeyed, -⟩, -⟩ := haccepted.named field
    rw [hnone] at hkeyed
    cases hkeyed
  | identity hother => exact hother ⟨haccepted.thread, haccepted.group⟩

theorem statusOf_within (bytes : Text) (tid pid : ℕ) :
    Within (TaskRefused tid pid bytes) (Accepted bytes tid pid) (statusOf bytes tid pid) := by
  refine Within.bind ((scanLines_within (nil_append _).symm scanned_nil).mono
    (fun _ => .scan) fun _ h => h) fun fields hfields => ?_
  refine Within.bind (Within.mapError (Within.require fun hopen => ?_) fun e he => he)
    fun _ hend => ?_
  · exact .open hopen
  have hstated : ∀ {field : StatusField} {n : ℕ}, fields field = some n →
      Named field.key bytes n := fun h => ⟨hend, hfields.stated _ _ h⟩
  refine Within.bind (Within.forM fun field _ => Within.require fun hnone => ?_) fun _ hall => ?_
  · exact .absent field (hfields.absent field (by simpa using hnone))
  refine Within.bind (Within.require fun hother => .identity fun hids => hother ⟨?_, ?_⟩)
    fun _ hids => ?_
  · obtain ⟨n, hn⟩ := isSome_iff_exists.mp (hall .pid (by decide))
    rw [hn, (hstated hn).unique hids.1]
  · obtain ⟨n, hn⟩ := isSome_iff_exists.mp (hall .tgid (by decide))
    rw [hn, (hstated hn).unique hids.2]
  refine (Within.found fun hnone => ?_).imp fun threads hthreads => ?_
  · exact .absent .threads (hfields.absent _ hnone)
  · obtain ⟨n, hn⟩ := isSome_iff_exists.mp (hall .tracerPid (by decide))
    have hzero := hfields.untraced n hn
    subst hzero
    exact ⟨hstated hids.1, hstated hids.2, hstated hn, hstated hthreads⟩

theorem statusOf_eq_ok :
    statusOf bytes tid pid = .ok threads ↔ Accepted bytes tid pid threads := by
  have hwithin := statusOf_within bytes tid pid
  refine ⟨fun h => hwithin.of_ok h, fun haccepted => ?_⟩
  cases hread : statusOf bytes tid pid with
  | ok m => rw [(hwithin.of_ok hread).threads.unique haccepted.threads]
  | error e => exact absurd haccepted (hwithin.of_error hread).not_accepted

/-! ## Reading the file -/

/-- The reads bring the bytes in pieces up to the end, and the budget lasts until the last of
them has landed. -/
inductive Delivers : List StatusRead → Text → Prop
  | nothing : Delivers [] []
  | ended (budget : Except ParentFailed Unit) (reads : List StatusRead) :
      Delivers (⟨.ok [], budget⟩ :: reads) []
  | piece {reads : List StatusRead} {chunk bytes : Text} {budget : Except ParentFailed Unit}
      (hchunk : chunk ≠ []) (hrest : Delivers reads bytes)
      (hbudget : budget = .ok () ∨ bytes = []) : Delivers (⟨.ok chunk, budget⟩ :: reads)
        (chunk ++ bytes)

theorem readLoop_delivers {reads : List StatusRead} {probe : Bool} {held : Text}
    (h : Delivers reads bytes) (hsize : (held ++ bytes).length ≤ STATUS_MAX_BYTES)
    (hprobe : probe = true → bytes = []) : readLoop probe held reads = .ok (held ++ bytes) := by
  induction h generalizing probe held with
  | nothing => rw [readLoop, append_nil]
  | ended budget reads =>
    rw [readLoop, append_nil]
    rfl
  | @piece reads chunk bytes budget hchunk hrest hbudget ih =>
    have hprobe' : probe = false := by
      by_contra h
      exact hchunk (append_eq_nil_iff.mp (hprobe (by simpa using h))).1
    rw [← append_assoc] at hsize ⊢
    have hland : landed (held ++ chunk) = .ok () := by
      refine require_pos ?_
      rw [length_append] at hsize
      omega
    subst hprobe'
    rw [readLoop]
    simp only [ok_bind, if_neg hchunk]
    rw [hland, ok_bind]
    cases budget with
    | ok => exact ih hsize (by simp)
    | error e =>
      -- A spent budget leaves one probe, which finds the end.
      exact ih hsize fun _ => hbudget.resolve_left (by simp)

theorem parentStatus_delivers {reads : List StatusRead} (h : Delivers reads bytes)
    (hsize : bytes.length ≤ STATUS_MAX_BYTES) (tid pid : ℕ) :
    parentStatus (.ok ()) reads tid pid = statusOf bytes tid pid := by
  have hread := @readLoop_delivers bytes reads false [] h (by rwa [nil_append]) (by simp)
  rw [nil_append] at hread
  rw [parentStatus, ok_bind, hread, ok_bind]

/-- Both scanners of a status accept exactly the texts that name their fields, agree on the process
they read, and point each refusal at the first byte that goes wrong. -/
theorem process_status (hsize : bytes.length ≤ STATUS_MAX_BYTES) :
    (∀ field n, parentIdentity bytes field = .ok n ↔ Named (identityKey field) bytes n) ∧
      (∀ reads tid pid threads, Delivers reads bytes →
        (parentStatus (.ok ()) reads tid pid = .ok threads ↔ Accepted bytes tid pid threads)) ∧
      (∀ reads tid pid threads n, Delivers reads bytes →
        parentStatus (.ok ()) reads tid pid = .ok threads → parentIdentity bytes 3 = .ok n →
        n = tid) ∧
      (∀ field e, parentIdentity bytes field = .error e →
        ∃ cause, e = .refused cause ∧ IdentityRefused field bytes cause) ∧
      ∀ reads tid pid e, Delivers reads bytes →
        parentStatus (.ok ()) reads tid pid = .error e → TaskRefused tid pid bytes e := by
  refine ⟨?_, ?_, ?_, ?_, ?_⟩
  · exact fun field n => parentIdentity_eq_ok hsize
  · intro reads tid pid threads hreads
    rw [parentStatus_delivers hreads hsize]
    exact statusOf_eq_ok
  · intro reads tid pid threads n hreads hstatus hidentity
    rw [parentStatus_delivers hreads hsize] at hstatus
    exact ((parentIdentity_eq_ok hsize).mp hidentity).unique (statusOf_eq_ok.mp hstatus).thread
  · exact fun field e he => (parentIdentity_within bytes field).of_error he
  · intro reads tid pid e hreads he
    rw [parentStatus_delivers hreads hsize] at he
    exact (statusOf_within bytes tid pid).of_error he

def initStatus : Text := ascii "Tgid:\t1\nPid:\t1\nPPid:\t0\nTracerPid:\t0\nThreads:\t3\n"

/-- The status of a process read in two parts, by both scanners, and refused for another thread. -/
theorem process_status_init :
    Named (identityKey 3) initStatus 1 ∧ Accepted initStatus 1 1 3 ∧
      TaskRefused 2 1 initStatus (.refused "owned.parent.task_identity" (.unverifiable 7)) := by
  obtain ⟨hidentity, hstatus, -, -, hrefused⟩ := @process_status initStatus (by decide)
  have hreads : Delivers
      [⟨.ok (initStatus.take 9), .ok ()⟩, ⟨.ok (initStatus.drop 9), .ok ()⟩] initStatus :=
    .piece (by decide) (.piece (by decide) .nothing (.inl rfl)) (.inl rfl)
  exact ⟨(hidentity 3 1).mp rfl, (hstatus _ 1 1 3 hreads).mp rfl, hrefused _ 2 1 _ hreads rfl⟩

end Rivect.Sandbox
