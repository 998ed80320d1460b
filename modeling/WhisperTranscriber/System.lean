import WhisperTranscriber.Segmenter
import WhisperTranscriber.RingBuffer
import WhisperTranscriber.Transcribe

/-!
# The transcriber and its threads

`WhisperTranscriber` together with the threads that run its code: the audio
device calling `ProcessAudioBuffer`, the owner calling `Start` and `Stop`, the
processing thread started by `Start`, and the worker-pool tasks.  An event is a
scheduling choice: which thread takes its next atomic step, with the inputs that
come from outside (a block and its amplitude, the engine's result).  An event
naming a step that cannot be taken leaves the state as it is.  Each step reports
its calls into the collaborators: ring-buffer writes with their outcome, blocks
enqueued to the worker pool, and calls into the output collaborator.

`ProcessAudioBuffer` is one step: besides the segmentation state, which no other
thread touches, it only writes to the ring buffer and the overflow counter.  The
worker pool's bound on concurrent tasks only restricts the interleavings, and is
not modelled.

* `run_invariant` / `run_obs` — a property that every step preserves holds after
  every run, and one that every step's report satisfies holds of the whole
  report.
-/

namespace WhisperTranscriber

/-- Where the processing thread is: `while (RunProcessingThread()) {}` started by
`Start`, and the loop of `RunProcessingThread`. -/
inductive ThreadPc where
  | notStarted
  | checkRunning
  | checkAvailable
  | resize
  | read (size : Nat)
  | enqueue (block : List UInt8)
  | returned (value : Bool)
  | exited
  deriving DecidableEq, Repr

/-- The members of `WhisperTranscriber` and the positions of its threads.
`whisperContext` says whether `_whisperContext` is non-null; `stopping` says
that `Stop` is waiting in `_processingThread.Finalize()`. -/
structure State where
  segmenter : Segmenter
  audioBuffer : AudioRingBuffer
  overflowCount : Nat
  running : Bool
  processingActive : Bool
  whisperContext : Bool
  speechAudioDevice : Option SpeechAudioDevice
  thread : ThreadPc
  stopping : Bool
  tasks : List Task

/-- A scheduling choice. -/
inductive Event where
  | processAudioBuffer (playoutBuffer : List UInt8) (avgAmplitude : ℚ)
  | start
  | stop
  | finalize
  | thread
  | task (i : Nat)
  | whisperFull (i : Nat) (result : Int) (texts : List (Option String))

/-- A call into a collaborator. -/
inductive Obs where
  | write (bytes : List UInt8) (ok : Bool)
  | enqueue (block : List UInt8)
  | output (call : Output)
  deriving DecidableEq, Repr

namespace State

/-- The constructor: `_whisperContext` as model loading left it, the ring buffer
of `kRingBufferSizeIncrement` bytes, and every flag and counter cleared. -/
def init (whisperContext : Bool) (speechAudioDevice : Option SpeechAudioDevice) : State where
  segmenter := Segmenter.init
  audioBuffer := AudioRingBuffer.new kRingBufferSizeIncrement
  overflowCount := 0
  running := false
  processingActive := false
  whisperContext := whisperContext
  speechAudioDevice := speechAudioDevice
  thread := .notStarted
  stopping := false
  tasks := []

/-- `handleOverflow`. -/
def handleOverflow (s : State) : State :=
  let s := { s with overflowCount := s.overflowCount + 1 }
  if s.overflowCount > 10 then
    { s with audioBuffer := s.audioBuffer.increaseWith kRingBufferSizeIncrement, overflowCount := 0 }
  else s

/-- `ProcessAudioBuffer`: the segmentation step, then the write of the flushed
range, if any, and `handleOverflow` when it fails. -/
def processAudioBuffer (s : State) (playoutBuffer : List UInt8) (avgAmplitude : ℚ) :
    State × List Obs :=
  let r := s.segmenter.processAudioBuffer playoutBuffer avgAmplitude
  let s := { s with segmenter := r.1 }
  match r.2 with
  | none => (s, [])
  | some bytes =>
      match s.audioBuffer.write bytes with
      | some rb => ({ s with audioBuffer := rb }, [.write bytes true])
      | none => (s.handleOverflow, [.write bytes false])

/-- `Start`.  The owner is one thread: while it waits in `Stop`'s join it cannot
call `Start`, so a `start` event then changes nothing. -/
def start (s : State) : State :=
  if !s.stopping && !s.running then { s with running := true, thread := .checkRunning } else s

/-- The value `Start` returns, `_running && !_processingThread.empty()`, read
after its body: the thread handle is empty until `Start` spawns the thread and
again once `Stop`'s join has finished. -/
def startResult (s : State) : Bool := s.start.running && s.start.thread != .notStarted

/-- `Stop` up to the join: clear `_running` and wait in `Finalize`. -/
def stop (s : State) : State :=
  if !s.stopping && s.running then { s with running := false, stopping := true } else s

/-- The join of `Stop` returns once the processing thread has exited; `Stop`
then clears the accumulator. -/
def finalize (s : State) : State :=
  if s.stopping && s.thread == .exited then
    { s with stopping := false, thread := .notStarted
             segmenter := { s.segmenter with accumulatedByteBuffer := [] } }
  else s

/-- One step of the processing thread.  Both exits of the loop of
`RunProcessingThread` reach `return true`. -/
def threadStep (s : State) : State × List Obs :=
  match s.thread with
  | .notStarted | .exited => (s, [])
  | .checkRunning => ({ s with thread := if s.running then .checkAvailable else .returned true }, [])
  | .checkAvailable =>
      ({ s with thread := if s.audioBuffer.availableToRead > 0 then .resize else .returned true }, [])
  | .resize => ({ s with thread := .read s.audioBuffer.availableToRead }, [])
  | .read size =>
      match s.audioBuffer.read size with
      | some (block, rb) => ({ s with audioBuffer := rb, thread := .enqueue block }, [])
      | none => ({ s with thread := .checkRunning }, [])
  | .enqueue block =>
      ({ s with tasks := s.tasks ++ [⟨block, [], .queued⟩], thread := .checkRunning }, [.enqueue block])
  | .returned value => ({ s with thread := if value then .checkRunning else .exited }, [])

/-- One step of task `i` outside the engine call. -/
def runTask (s : State) (i : Nat) : State :=
  match s.tasks[i]? with
  | none => s
  | some t =>
      { s with tasks := s.tasks.set i (taskStep s.whisperContext s.processingActive t).1
               processingActive := (taskStep s.whisperContext s.processingActive t).2 }

/-- `whisper_full` returns `result` to task `i`, with the engine's segment texts;
on success the result is forwarded to the output collaborator. -/
def whisperFullReturns (s : State) (i : Nat) (result : Int) (texts : List (Option String)) :
    State × List Obs :=
  match s.tasks[i]? with
  | some t =>
      if t.pc = .whisperFull then
        ({ s with tasks := s.tasks.set i { t with pc := .release result } },
          if result = 0 then ((forwardTranscription s.speechAudioDevice texts).map .output).toList
          else [])
      else (s, [])
  | none => (s, [])

/-! ### Frames: the members each operation may change -/

theorem handleOverflow_frame (s : State) :
    ∃ rb n, s.handleOverflow = { s with audioBuffer := rb, overflowCount := n } := by
  unfold handleOverflow
  dsimp only
  split
  · exact ⟨_, _, rfl⟩
  · exact ⟨_, _, rfl⟩

theorem processAudioBuffer_frame (s : State) (playoutBuffer : List UInt8) (avgAmplitude : ℚ) :
    ∃ seg rb n, (s.processAudioBuffer playoutBuffer avgAmplitude).1 =
      { s with segmenter := seg, audioBuffer := rb, overflowCount := n } := by
  unfold processAudioBuffer
  dsimp only
  split
  · exact ⟨_, _, _, rfl⟩
  · split
    · exact ⟨_, _, _, rfl⟩
    · obtain ⟨rb, n, h⟩ := handleOverflow_frame
        { s with segmenter := (s.segmenter.processAudioBuffer playoutBuffer avgAmplitude).1 }
      exact ⟨_, rb, n, h⟩

theorem threadStep_frame (s : State) :
    ∃ rb th tasks, s.threadStep.1 = { s with audioBuffer := rb, thread := th, tasks := tasks } := by
  unfold threadStep
  split
  · exact ⟨_, _, _, rfl⟩
  · exact ⟨_, _, _, rfl⟩
  · exact ⟨_, _, _, rfl⟩
  · exact ⟨_, _, _, rfl⟩
  · exact ⟨_, _, _, rfl⟩
  · split
    · exact ⟨_, _, _, rfl⟩
    · exact ⟨_, _, _, rfl⟩
  · exact ⟨_, _, _, rfl⟩
  · exact ⟨_, _, _, rfl⟩

theorem runTask_frame (s : State) (i : Nat) :
    ∃ tasks active, s.runTask i = { s with tasks := tasks, processingActive := active } := by
  unfold runTask
  split
  · exact ⟨_, _, rfl⟩
  · exact ⟨_, _, rfl⟩

theorem whisperFullReturns_frame (s : State) (i : Nat) (result : Int) (texts : List (Option String)) :
    ∃ tasks, (s.whisperFullReturns i result texts).1 = { s with tasks := tasks } := by
  unfold whisperFullReturns
  split
  · split
    · exact ⟨_, rfl⟩
    · exact ⟨_, rfl⟩
  · exact ⟨_, rfl⟩

/-! ### Control: who moves the processing thread and the owner's flags

Only `Start`, `Stop`, its join and the processing thread itself touch `_running`,
the wait in `Stop` and the thread's position. -/

section Control

variable (s : State)

@[simp] theorem processAudioBuffer_thread (playoutBuffer : List UInt8) (avgAmplitude : ℚ) :
    (s.processAudioBuffer playoutBuffer avgAmplitude).1.thread = s.thread := by
  obtain ⟨_, _, _, h⟩ := processAudioBuffer_frame s playoutBuffer avgAmplitude; rw [h]

@[simp] theorem processAudioBuffer_running (playoutBuffer : List UInt8) (avgAmplitude : ℚ) :
    (s.processAudioBuffer playoutBuffer avgAmplitude).1.running = s.running := by
  obtain ⟨_, _, _, h⟩ := processAudioBuffer_frame s playoutBuffer avgAmplitude; rw [h]

@[simp] theorem processAudioBuffer_stopping (playoutBuffer : List UInt8) (avgAmplitude : ℚ) :
    (s.processAudioBuffer playoutBuffer avgAmplitude).1.stopping = s.stopping := by
  obtain ⟨_, _, _, h⟩ := processAudioBuffer_frame s playoutBuffer avgAmplitude; rw [h]

@[simp] theorem runTask_thread (i : Nat) : (s.runTask i).thread = s.thread := by
  obtain ⟨_, _, h⟩ := runTask_frame s i; rw [h]

@[simp] theorem runTask_running (i : Nat) : (s.runTask i).running = s.running := by
  obtain ⟨_, _, h⟩ := runTask_frame s i; rw [h]

@[simp] theorem runTask_stopping (i : Nat) : (s.runTask i).stopping = s.stopping := by
  obtain ⟨_, _, h⟩ := runTask_frame s i; rw [h]

@[simp] theorem whisperFullReturns_thread (i : Nat) (result : Int) (texts : List (Option String)) :
    (s.whisperFullReturns i result texts).1.thread = s.thread := by
  obtain ⟨_, h⟩ := whisperFullReturns_frame s i result texts; rw [h]

@[simp] theorem whisperFullReturns_running (i : Nat) (result : Int) (texts : List (Option String)) :
    (s.whisperFullReturns i result texts).1.running = s.running := by
  obtain ⟨_, h⟩ := whisperFullReturns_frame s i result texts; rw [h]

@[simp] theorem whisperFullReturns_stopping (i : Nat) (result : Int) (texts : List (Option String)) :
    (s.whisperFullReturns i result texts).1.stopping = s.stopping := by
  obtain ⟨_, h⟩ := whisperFullReturns_frame s i result texts; rw [h]

@[simp] theorem threadStep_running : s.threadStep.1.running = s.running := by
  obtain ⟨_, _, _, h⟩ := threadStep_frame s; rw [h]

@[simp] theorem threadStep_stopping : s.threadStep.1.stopping = s.stopping := by
  obtain ⟨_, _, _, h⟩ := threadStep_frame s; rw [h]

end Control

/-! ### Reports: the calls each operation may make -/

/-- `ProcessAudioBuffer` reports at most one write. -/
theorem processAudioBuffer_obs (s : State) (playoutBuffer : List UInt8) (avgAmplitude : ℚ) :
    (s.processAudioBuffer playoutBuffer avgAmplitude).2 = [] ∨
      ∃ bytes ok, (s.processAudioBuffer playoutBuffer avgAmplitude).2 = [.write bytes ok] := by
  unfold processAudioBuffer
  dsimp only
  split
  · exact .inl rfl
  · split
    · exact .inr ⟨_, _, rfl⟩
    · exact .inr ⟨_, _, rfl⟩

/-- The processing thread reports only the enqueue of the block it holds. -/
theorem threadStep_obs (s : State) :
    s.threadStep.2 = [] ∨ ∃ block, s.thread = .enqueue block ∧ s.threadStep.2 = [.enqueue block] := by
  cases hth : s.thread with
  | enqueue block => exact .inr ⟨block, rfl, by simp only [threadStep, hth]⟩
  | read size => simp only [threadStep, hth]; split <;> exact .inl rfl
  | _ => exact .inl (by simp only [threadStep, hth])

/-- The return of `whisper_full` reports at most one call into the output
collaborator. -/
theorem whisperFullReturns_obs (s : State) (i : Nat) (result : Int) (texts : List (Option String)) :
    ∃ out : Option Output, (s.whisperFullReturns i result texts).2 = (out.map .output).toList := by
  unfold whisperFullReturns
  split
  · split
    · split
      · exact ⟨_, rfl⟩
      · exact ⟨none, rfl⟩
    · exact ⟨none, rfl⟩
  · exact ⟨none, rfl⟩

/-- One scheduling step and the calls it made into the collaborators. -/
def step (s : State) : Event → State × List Obs
  | .processAudioBuffer playoutBuffer avgAmplitude => s.processAudioBuffer playoutBuffer avgAmplitude
  | .start => (s.start, [])
  | .stop => (s.stop, [])
  | .finalize => (s.finalize, [])
  | .thread => s.threadStep
  | .task i => (s.runTask i, [])
  | .whisperFull i result texts => s.whisperFullReturns i result texts

/-- A run: the final state and every call into the collaborators, in order. -/
def run (s : State) : List Event → State × List Obs
  | [] => (s, [])
  | e :: es => (((s.step e).1.run es).1, (s.step e).2 ++ ((s.step e).1.run es).2)

@[simp] theorem run_nil (s : State) : s.run [] = (s, []) := rfl

theorem run_cons (s : State) (e : Event) (es : List Event) :
    s.run (e :: es) = (((s.step e).1.run es).1, (s.step e).2 ++ ((s.step e).1.run es).2) := rfl

theorem run_append (s : State) (es₁ es₂ : List Event) :
    s.run (es₁ ++ es₂) = (((s.run es₁).1.run es₂).1, (s.run es₁).2 ++ ((s.run es₁).1.run es₂).2) := by
  induction es₁ generalizing s with
  | nil => simp
  | cons e es ih => simp [run_cons, ih]

/-- A property that every step preserves holds after every run. -/
theorem run_invariant (Inv : State → Prop) (hstep : ∀ s e, Inv s → Inv (s.step e).1) :
    ∀ (s : State) (es : List Event), Inv s → Inv (s.run es).1 := by
  intro s es
  induction es generalizing s with
  | nil => exact id
  | cons e es ih => exact fun h => ih _ (hstep s e h)

/-- A property of reports that every step of an invariant state satisfies holds
of every report of a run from an invariant state. -/
theorem run_obs (Inv : State → Prop) (P : Obs → Prop) (hstep : ∀ s e, Inv s → Inv (s.step e).1)
    (hobs : ∀ s e, Inv s → ∀ o ∈ (s.step e).2, P o) :
    ∀ (s : State) (es : List Event), Inv s → ∀ o ∈ (s.run es).2, P o := by
  intro s es
  induction es generalizing s with
  | nil => simp
  | cons e es ih =>
      intro h o ho
      rw [run_cons, List.mem_append] at ho
      exact ho.elim (hobs s e h o) (ih _ (hstep s e h) o)

end State

end WhisperTranscriber
