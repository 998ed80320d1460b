import WhisperTranscriber.Dispatch
import WhisperTranscriber.Drain
import WhisperTranscriber.Pipeline

/-!
# What the engine is called with

A task reaches `whisper_full` only after each check of `TranscribeAudioNonBlocking`
has passed in turn, on the samples it converted from the block the processing
thread handed it; the other threads interleave with these checks but never touch
the task's samples.  Every such block is whole segments (`Dispatch`), so the
engine only ever sees the exact conversion of one to `2 * kTargetSamples` bytes
of segmented audio, and the producer's accounts (`Pipeline`) place that block
inside the voiced audio of the run.  Conversely, a queued task scheduled alone
with the guard free passes every check exactly when its block fits the size
check.

* `view_taskStep` — one step of a task keeps what its position says about its
  block and samples.
* `queued_task_whisperFull_iff` — from every reachable state, a queued task
  scheduled alone with the guard free enters `whisper_full` iff its block holds
  at most `2 * kTargetSamples` bytes; the size check drops a larger one.
* `engine_input_whole_segments` — every task inside `whisper_full` holds the
  conversion of a non-empty block of whole segments of at most
  `2 * kTargetSamples` bytes.
* `engine_input_voiced` — that block is one the processing thread enqueued, its
  bytes are voiced audio of the run in order, and a contiguous stretch of it
  when no write failed.
-/

namespace WhisperTranscriber

/-- The samples of a task are the conversion of a non-empty block of whole
segments that the processing thread enqueued in the report `obs`. -/
def Task.Converted (obs : List Obs) (t : Task) : Prop :=
  ∃ block, Obs.enqueue block ∈ obs ∧ block ≠ [] ∧ WholeSegments block ∧ t.pcmf32 = toPcmF32 block

/-- What a task holds at each position: the block it was enqueued with before
the conversion, the converted block after it, and past each check, samples that
pass it. -/
def Task.View (obs : List Obs) (t : Task) : Prop :=
  match t.pc with
  | .queued => Obs.enqueue t.localAudioBuffer ∈ obs ∧ t.localAudioBuffer ≠ [] ∧
      WholeSegments t.localAudioBuffer
  | .exchange | .checkContext | .checkEmpty | .checkSize => t.Converted obs
  | .checkSamples => t.Converted obs ∧ sizeRejected t.pcmf32 = false
  | .checkContextAgain | .whisperFull | .release _ => t.Converted obs ∧ inputAccepted t.pcmf32 = true
  | .returned _ | .skipped => True

section View

variable {obs obs' : List Obs} {t : Task}

theorem Task.Converted.ne_nil (h : t.Converted obs) : t.pcmf32 ≠ [] := by
  obtain ⟨block, -, hne, -, hpcm⟩ := h
  rw [hpcm, ← List.length_pos, length_toPcmF32]
  have := List.length_pos.mpr hne
  omega

theorem Task.Converted.mono (hsub : obs ⊆ obs') (h : t.Converted obs) : t.Converted obs' := by
  obtain ⟨block, hmem, hrest⟩ := h
  exact ⟨block, hsub hmem, hrest⟩

/-- A longer report keeps every view. -/
theorem Task.View.mono (hsub : obs ⊆ obs') (h : t.View obs) : t.View obs' := by
  obtain ⟨block, pcm, pc⟩ := t
  cases pc with
  | queued => exact ⟨hsub h.1, h.2⟩
  | exchange | checkContext | checkEmpty | checkSize => exact Task.Converted.mono hsub h
  | checkSamples | checkContextAgain | whisperFull | release _ => exact ⟨h.1.mono hsub, h.2⟩
  | returned _ | skipped => trivial

/-- One step of a task keeps its view: the conversion takes the block the task
was enqueued with, and each check that passes records what it checked. -/
theorem view_taskStep (whisperContext processingActive : Bool) (h : t.View obs) :
    (taskStep whisperContext processingActive t).1.View obs := by
  obtain ⟨block, pcm, pc⟩ := t
  cases pc with
  | queued =>
      simp only [taskStep]
      split
      · exact ⟨block, h.1, h.2.1, h.2.2, rfl⟩
      · trivial
  | exchange | checkContext | checkEmpty | checkContextAgain =>
      simp only [taskStep]; split <;> first | exact h | trivial
  | checkSize =>
      simp only [taskStep]
      split
      · trivial
      · next hs => exact ⟨h, by simpa using hs⟩
  | checkSamples =>
      simp only [taskStep]
      split
      · trivial
      · next hs =>
          refine ⟨h.1, ?_⟩
          simp only [inputAccepted, Bool.and_eq_true, Bool.not_eq_true', List.isEmpty_eq_false]
          exact ⟨⟨h.1.ne_nil, h.2⟩, by simpa using hs⟩
  | whisperFull => exact h
  | release _ | returned _ | skipped => trivial

end View

/-- Steps of one task in a row, with the guard threaded through. -/
def soloSteps (whisperContext : Bool) : Nat → Task × Bool → Task × Bool
  | 0, ta => ta
  | k + 1, ta => soloSteps whisperContext k (taskStep whisperContext ta.2 ta.1)

namespace State

/-- The engine invariant of a state and the report that led to it: the dispatch
invariant, and every task's view. -/
structure EngineInv (obs : List Obs) (s : State) : Prop where
  dispatch : DispatchInv s
  tasks : ∀ t ∈ s.tasks, t.View obs

theorem engineInv_step {obs : List Obs} {s : State} (e : Event) (h : EngineInv obs s) :
    EngineInv (obs ++ (s.step e).2) (s.step e).1 := by
  refine ⟨dispatchInv_step e h.dispatch, ?_⟩
  have keep : ∀ new, ∀ t ∈ s.tasks, t.View (obs ++ new) :=
    fun _ t ht => (h.tasks t ht).mono (List.subset_append_left _ _)
  cases e with
  | processAudioBuffer playoutBuffer avgAmplitude =>
      obtain ⟨seg, rb, n, hr⟩ := processAudioBuffer_frame s playoutBuffer avgAmplitude
      simpa only [step, hr] using keep _
  | start => simp only [step, State.start]; split <;> exact keep _
  | stop => simp only [step, State.stop]; split <;> exact keep _
  | finalize => simp only [step, State.finalize]; split <;> exact keep _
  | thread =>
      have hview := h.dispatch.view
      cases hth : s.thread with
      | enqueue block =>
          rw [hth] at hview
          simp only [step, threadStep, hth]
          intro t ht
          rcases List.mem_append.mp ht with ht | ht
          · exact keep _ t ht
          · simp only [List.mem_singleton] at ht
            subst ht
            exact ⟨List.mem_append_right _ (List.mem_singleton_self _), hview⟩
      | read size => simp only [step, threadStep, hth]; split <;> exact keep _
      | _ => simpa only [step, threadStep, hth] using keep _
  | task i =>
      simp only [step, runTask]
      split
      · exact keep _
      · rename_i t ht
        intro t' ht'
        rcases List.mem_or_eq_of_mem_set ht' with ht' | rfl
        · exact keep _ t' ht'
        · exact view_taskStep _ _ (keep _ t (List.getElem?_mem ht))
  | whisperFull i result texts =>
      generalize (s.step (.whisperFull i result texts)).2 = new
      simp only [step, whisperFullReturns]
      split
      · rename_i t ht
        split
        · rename_i hpc
          intro t' ht'
          rcases List.mem_or_eq_of_mem_set ht' with ht' | rfl
          · exact keep _ t' ht'
          · simpa only [Task.View, hpc] using keep new t (List.getElem?_mem ht)
        · exact keep _
      · exact keep _

/-- The engine invariant over every run, with the report of the run. -/
theorem engineInv_run (events : List Event) :
    ∀ (s : State) (obs : List Obs), EngineInv obs s → EngineInv (obs ++ (s.run events).2) (s.run events).1 := by
  induction events with
  | nil => intro s obs h; simpa using h
  | cons e es ih =>
      intro s obs h
      rw [run_cons, ← List.append_assoc]
      exact ih _ _ (engineInv_step e h)

/-- From construction, every task's view against the report of the run. -/
theorem engineInv_init_run (whisperContext : Bool) (speechAudioDevice : Option SpeechAudioDevice)
    (events : List Event) :
    ∀ t ∈ ((init whisperContext speechAudioDevice).run events).1.tasks,
      t.View ((init whisperContext speechAudioDevice).run events).2 := by
  have h := engineInv_run events (init whisperContext speechAudioDevice) []
    ⟨dispatchInv_init _ _, by simp [init]⟩
  rw [List.nil_append] at h
  exact h.tasks

/-! ### Reaching the engine -/

section Frame

variable (s : State)

@[simp] theorem processAudioBuffer_tasks (playoutBuffer : List UInt8) (avgAmplitude : ℚ) :
    (s.processAudioBuffer playoutBuffer avgAmplitude).1.tasks = s.tasks := by
  obtain ⟨_, _, _, h⟩ := processAudioBuffer_frame s playoutBuffer avgAmplitude; rw [h]

@[simp] theorem processAudioBuffer_processingActive (playoutBuffer : List UInt8) (avgAmplitude : ℚ) :
    (s.processAudioBuffer playoutBuffer avgAmplitude).1.processingActive = s.processingActive := by
  obtain ⟨_, _, _, h⟩ := processAudioBuffer_frame s playoutBuffer avgAmplitude; rw [h]

@[simp] theorem processAudioBuffer_whisperContext (playoutBuffer : List UInt8) (avgAmplitude : ℚ) :
    (s.processAudioBuffer playoutBuffer avgAmplitude).1.whisperContext = s.whisperContext := by
  obtain ⟨_, _, _, h⟩ := processAudioBuffer_frame s playoutBuffer avgAmplitude; rw [h]

end Frame

/-- No step changes the output collaborator. -/
@[simp] theorem step_speechAudioDevice (s : State) (e : Event) :
    (s.step e).1.speechAudioDevice = s.speechAudioDevice := by
  cases e with
  | processAudioBuffer playoutBuffer avgAmplitude =>
      obtain ⟨_, _, _, h⟩ := processAudioBuffer_frame s playoutBuffer avgAmplitude; simp only [step, h]
  | start => simp only [step, State.start]; split <;> rfl
  | stop => simp only [step, State.stop]; split <;> rfl
  | finalize => simp only [step, State.finalize]; split <;> rfl
  | thread => obtain ⟨_, _, _, h⟩ := threadStep_frame s; simp only [step, h]
  | task i => obtain ⟨_, _, h⟩ := runTask_frame s i; simp only [step, h]
  | whisperFull i result texts =>
      obtain ⟨_, h⟩ := whisperFullReturns_frame s i result texts; simp only [step, h]

theorem run_speechAudioDevice (events : List Event) :
    ∀ s : State, (s.run events).1.speechAudioDevice = s.speechAudioDevice := by
  induction events with
  | nil => simp
  | cons e es ih => intro s; rw [run_cons, ih, step_speechAudioDevice]

/-- Task `i` scheduled alone `k` times, as one run of `taskStep` with the guard
threaded through. -/
theorem run_task_replicate (k : Nat) : ∀ (s : State) (i : Nat) (t : Task), s.tasks[i]? = some t →
    (s.run (List.replicate k (.task i))).1 =
      { s with tasks := s.tasks.set i (soloSteps s.whisperContext k (t, s.processingActive)).1
               processingActive := (soloSteps s.whisperContext k (t, s.processingActive)).2 } := by
  induction k with
  | zero =>
      intro s i t hi
      have hlt := (List.getElem?_eq_some_iff.mp hi).1
      have hset : s.tasks.set i t = s.tasks :=
        List.ext_getElem? fun j => by rw [List.getElem?_set]; split <;> simp_all
      simp [soloSteps, hset]
  | succ k ih =>
      intro s i t hi
      have hlt := (List.getElem?_eq_some_iff.mp hi).1
      have hi' : (s.step (.task i)).1.tasks[i]? =
          some (taskStep s.whisperContext s.processingActive t).1 := by
        simp [step, runTask, hi, List.getElem?_set_self hlt]
      rw [List.replicate_succ, run_cons, ih _ i _ hi']
      simp [step, runTask, hi, soloSteps, List.set_set]

/-- Task steps call no collaborator. -/
theorem run_task_replicate_obs (k : Nat) (i : Nat) :
    ∀ s : State, (s.run (List.replicate k (.task i))).2 = [] := by
  induction k with
  | zero => simp
  | succ k ih => intro s; simp [List.replicate_succ, run_cons, step, ih]

/-- From a fresh start, one utterance and a drain leave exactly one task, queued
with the utterance's bytes, and the guard free. -/
theorem run_utterance_drain_tasks (whisperContext : Bool)
    (speechAudioDevice : Option SpeechAudioDevice) {block : List UInt8} {avgAmplitude : ℚ}
    (hu : Utterance block avgAmplitude) :
    ((init whisperContext speechAudioDevice).run
        (.start :: utteranceEvents block avgAmplitude ++ drainEvents)).1.tasks = [⟨block, [], .queued⟩] ∧
      ((init whisperContext speechAudioDevice).run
        (.start :: utteranceEvents block avgAmplitude ++ drainEvents)).1.processingActive = false ∧
      ((init whisperContext speechAudioDevice).run
        (.start :: utteranceEvents block avgAmplitude ++ drainEvents)).1.whisperContext = whisperContext := by
  have hroom : kTargetSamples ≤ kRingBufferSizeIncrement := by decide
  have hq : ((init whisperContext speechAudioDevice).step .start).1.Quiet := ⟨rfl, rfl, rfl, rfl, hroom⟩
  obtain ⟨-, seg, -, hstate⟩ := run_utterance_round _ hq hu
  rw [List.cons_append, run_cons, hstate]
  exact ⟨rfl, rfl, rfl⟩

/-- A queued task of a non-empty block of whole segments of at most
`2 * kTargetSamples` bytes, scheduled alone with a context and the guard free,
passes every check and enters `whisper_full` in seven steps, holding the guard. -/
theorem run_task_whisperFull (s : State) (i : Nat) {block : List UInt8} {pcm : List ℚ}
    (hi : s.tasks[i]? = some ⟨block, pcm, .queued⟩) (hctx : s.whisperContext = true)
    (hact : s.processingActive = false) (hne : block ≠ []) (hw : WholeSegments block)
    (hlen : block.length ≤ 2 * kTargetSamples) :
    (s.run (List.replicate 7 (.task i))).1 =
      { s with tasks := s.tasks.set i ⟨[], toPcmF32 block, .whisperFull⟩, processingActive := true } := by
  have hacc := (inputAccepted_toPcmF32 hw hne).2.2.mpr hlen
  simp only [inputAccepted, Bool.and_eq_true, Bool.not_eq_true'] at hacc
  have hev := Nat.even_iff.mp hw.even
  have hpos : block.length ≠ 0 := by simpa using hne
  rw [run_task_replicate 7 s i _ hi]
  simp [soloSteps, taskStep, hctx, hact, hpos, hev, hacc]

/-- A queued task of a block of whole segments of more than `2 * kTargetSamples`
bytes, scheduled alone with a context and the guard free, is dropped by the size
check within seven steps. -/
theorem run_task_rejected (s : State) (i : Nat) {block : List UInt8} {pcm : List ℚ}
    (hi : s.tasks[i]? = some ⟨block, pcm, .queued⟩) (hctx : s.whisperContext = true)
    (hact : s.processingActive = false) (hw : WholeSegments block)
    (hlen : 2 * kTargetSamples < block.length) :
    (s.run (List.replicate 7 (.task i))).1.tasks[i]? = some ⟨[], toPcmF32 block, .returned false⟩ := by
  have hlt : i < s.tasks.length := (List.getElem?_eq_some_iff.mp hi).1
  have hev := Nat.even_iff.mp hw.even
  have hpos : block.length ≠ 0 := by omega
  have hsize : sizeRejected (toPcmF32 block) = true := by
    simp only [sizeRejected, length_toPcmF32, Bool.or_eq_true, decide_eq_true_eq]; omega
  have hne : (toPcmF32 block).isEmpty = false := by
    cases h : toPcmF32 block with
    | nil => have := length_toPcmF32 block; rw [h] at this; simp at this; omega
    | cons _ _ => rfl
  rw [run_task_replicate 7 s i _ hi]
  simp [soloSteps, taskStep, hctx, hact, hpos, hev, hsize, hne, List.getElem?_set_self hlt]

/-- **A dispatched block reaches the engine iff it fits.**  From every reachable
state, a queued task scheduled alone for seven steps, with a context and the
guard free, is inside `whisper_full` iff its block holds at most
`2 * kTargetSamples` bytes; a larger block is dropped by the size check, and
its task has returned `false` without calling the engine. -/
theorem queued_task_whisperFull_iff (s : State) (hs : Reachable s) (i : Nat) (t : Task)
    (hi : s.tasks[i]? = some t) (hq : t.pc = .queued) (hctx : s.whisperContext = true)
    (hact : s.processingActive = false) :
    ((s.run (List.replicate 7 (.task i))).1.tasks[i]?.map Task.pc = some .whisperFull ↔
        t.localAudioBuffer.length ≤ 2 * kTargetSamples) ∧
      (2 * kTargetSamples < t.localAudioBuffer.length →
        (s.run (List.replicate 7 (.task i))).1.tasks[i]?.map Task.pc = some (.returned false)) := by
  obtain ⟨whisperContext, speechAudioDevice, events, rfl⟩ := hs
  have hv := engineInv_init_run whisperContext speechAudioDevice events t (List.getElem?_mem hi)
  obtain ⟨block, pcm, pc⟩ := t
  dsimp only at hq
  subst hq
  obtain ⟨-, hne, hw⟩ := hv
  have hlt := (List.getElem?_eq_some_iff.mp hi).1
  by_cases hlen : block.length ≤ 2 * kTargetSamples
  · rw [run_task_whisperFull _ i hi hctx hact hne hw hlen]
    simp [List.getElem?_set_self hlt, hlen, Nat.not_lt.mpr hlen]
  · rw [run_task_rejected _ i hi hctx hact hw (by omega)]
    simp [hlen]

theorem queued_task_whisperFull_iff_one_utterance :
    let s := ((init true none).run
      (.start :: utteranceEvents (List.replicate 32000 0) 1 ++ drainEvents)).1
    let t : Task := ⟨List.replicate 32000 0, [], .queued⟩
    Reachable s ∧ s.tasks[0]? = some t ∧ t.pc = .queued ∧ s.whisperContext = true ∧
      s.processingActive = false ∧
      (((s.run (List.replicate 7 (.task 0))).1.tasks[0]?.map Task.pc = some .whisperFull ↔
          t.localAudioBuffer.length ≤ 2 * kTargetSamples) ∧
        (2 * kTargetSamples < t.localAudioBuffer.length →
          (s.run (List.replicate 7 (.task 0))).1.tasks[0]?.map Task.pc = some (.returned false))) := by
  intro s t
  have hu : Utterance (List.replicate 32000 0) 1 := by
    simp only [Utterance, List.length_replicate]; decide
  obtain ⟨ht, ha, hc⟩ := run_utterance_drain_tasks true none hu
  have hs : Reachable s := ⟨true, none, _, rfl⟩
  have hi : s.tasks[0]? = some t := by simp only [s, ht]; rfl
  exact ⟨hs, hi, rfl, hc, ha, queued_task_whisperFull_iff s hs 0 t hi rfl hc ha⟩

/-! ### What the engine is called with -/

/-- One second of speech from construction, drained and run alone through its
task's checks, is inside `whisper_full`, holding the guard. -/
theorem one_utterance_whisperFull :
    (⟨[], toPcmF32 (List.replicate 32000 0), .whisperFull⟩ : Task) ∈
        ((init true none).run (.start :: utteranceEvents (List.replicate 32000 0) 1 ++ drainEvents ++
          List.replicate 7 (.task 0))).1.tasks ∧
      ((init true none).run (.start :: utteranceEvents (List.replicate 32000 0) 1 ++ drainEvents ++
          List.replicate 7 (.task 0))).1.processingActive = true := by
  have hu : Utterance (List.replicate 32000 0) 1 := by
    simp only [Utterance, List.length_replicate]; decide
  obtain ⟨ht, ha, hc⟩ := run_utterance_drain_tasks true none hu
  have hw : WholeSegments (List.replicate 32000 0) :=
    wholeSegments_of_valid (by simp only [ValidSegment, List.length_replicate]; decide)
  rw [run_append, run_task_whisperFull _ 0 (by rw [ht]; rfl) hc ha
    (List.ne_nil_of_length_pos (by rw [List.length_replicate]; decide)) hw
    (by rw [List.length_replicate]; decide)]
  exact ⟨by simp only [ht, List.set_cons_zero, List.mem_singleton], rfl⟩

/-- **What `whisper_full` is called with.**  Over every interleaving from
construction, every task inside `whisper_full` holds the exact conversion to
`pcmf32` of a non-empty block of whole segments of at most `2 * kTargetSamples`
bytes: every check of `TranscribeAudioNonBlocking` has passed on it, whatever the
other tasks and threads did in between. -/
theorem engine_input_whole_segments (whisperContext : Bool)
    (speechAudioDevice : Option SpeechAudioDevice) (events : List Event) :
    ∀ t ∈ ((init whisperContext speechAudioDevice).run events).1.tasks, t.pc = .whisperFull →
      ∃ block, block ≠ [] ∧ WholeSegments block ∧ block.length ≤ 2 * kTargetSamples ∧
        t.pcmf32 = toPcmF32 block := by
  intro t ht hpc
  have hv := engineInv_init_run whisperContext speechAudioDevice events t ht
  simp only [Task.View, hpc] at hv
  obtain ⟨⟨block, -, hne, hwhole, hpcm⟩, hacc⟩ := hv
  rw [hpcm] at hacc
  exact ⟨block, hne, hwhole, (inputAccepted_toPcmF32 hwhole hne).2.2.mp hacc, hpcm⟩

theorem engine_input_whole_segments_one_utterance :
    (⟨[], toPcmF32 (List.replicate 32000 0), .whisperFull⟩ : Task) ∈
        ((init true none).run (.start :: utteranceEvents (List.replicate 32000 0) 1 ++ drainEvents ++
          List.replicate 7 (.task 0))).1.tasks ∧
      ∃ block, block ≠ [] ∧ WholeSegments block ∧ block.length ≤ 2 * kTargetSamples ∧
        toPcmF32 (List.replicate 32000 0) = toPcmF32 block :=
  ⟨one_utterance_whisperFull.1,
    engine_input_whole_segments true none _ _ one_utterance_whisperFull.1 rfl⟩

/-! ### Where the engine's input comes from -/

/-- **The engine hears the voiced audio.**  Over every interleaving from
construction, with blocks of even length, every task inside `whisper_full` holds
the conversion of a block that the processing thread enqueued; the block's bytes
occur, in order, in the voiced audio of the run, and when no write to the ring
buffer failed they are one contiguous stretch of it. -/
theorem engine_input_voiced (whisperContext : Bool) (speechAudioDevice : Option SpeechAudioDevice)
    (events : List Event)
    (heven : ∀ playoutBuffer avgAmplitude,
      Event.processAudioBuffer playoutBuffer avgAmplitude ∈ events → Even playoutBuffer.length) :
    ∀ t ∈ ((init whisperContext speechAudioDevice).run events).1.tasks, t.pc = .whisperFull →
      ∃ block, Obs.enqueue block ∈ ((init whisperContext speechAudioDevice).run events).2 ∧
        t.pcmf32 = toPcmF32 block ∧ block.Sublist (voicedBytes events) ∧
        (failedWrites ((init whisperContext speechAudioDevice).run events).2 = 0 →
          block <:+: voicedBytes events) := by
  intro t ht hpc
  have hv := engineInv_init_run whisperContext speechAudioDevice events t ht
  simp only [Task.View, hpc] at hv
  obtain ⟨⟨block, hmem, -, -, hpcm⟩, -⟩ := hv
  obtain ⟨hdel, hflow⟩ := run_init_accounts whisperContext speechAudioDevice events heven
  set r := (init whisperContext speechAudioDevice).run events
  obtain ⟨hsub, heq⟩ := writtenBytes_sublist_attemptedBytes r.2
  have hblock : block <:+: enqueuedBytes r.2 :=
    List.infix_of_mem_flatten (List.mem_map_of_mem Obs.enqueuedBytes hmem)
  have henq : enqueuedBytes r.2 <+: writtenBytes r.2 := by
    rw [← hdel, List.append_assoc]; exact List.prefix_append _ _
  have hatt : attemptedBytes r.2 <+: voicedBytes events := by
    rw [← hflow]; exact List.prefix_append _ _
  refine ⟨block, hmem, hpcm, hblock.sublist.trans (henq.sublist.trans (hsub.trans hatt.sublist)),
    fun h => ?_⟩
  rw [heq h] at henq
  exact hblock.trans (henq.isInfix.trans hatt.isInfix)

theorem engine_input_voiced_one_utterance :
    let events := .start :: utteranceEvents (List.replicate 32000 0) 1 ++ drainEvents ++
      List.replicate 7 (.task 0)
    (∀ playoutBuffer avgAmplitude,
      Event.processAudioBuffer playoutBuffer avgAmplitude ∈ events → Even playoutBuffer.length) ∧
    (⟨[], toPcmF32 (List.replicate 32000 0), .whisperFull⟩ : Task) ∈ ((init true none).run events).1.tasks ∧
      ∃ block, Obs.enqueue block ∈ ((init true none).run events).2 ∧
        toPcmF32 (List.replicate 32000 0) = toPcmF32 block ∧ block.Sublist (voicedBytes events) ∧
        (failedWrites ((init true none).run events).2 = 0 → block <:+: voicedBytes events) := by
  intro events
  have heven : ∀ playoutBuffer avgAmplitude,
      Event.processAudioBuffer playoutBuffer avgAmplitude ∈ events → Even playoutBuffer.length := by
    intro playoutBuffer avgAmplitude h
    simp only [events, utteranceEvents, drainEvents, List.cons_append, List.mem_cons, List.mem_append,
      List.mem_replicate, Event.processAudioBuffer.injEq, reduceCtorEq, false_or, or_false, false_and,
      List.mem_singleton, List.not_mem_nil, List.nil_append, and_false] at h
    rcases h with ⟨rfl, -⟩ | ⟨rfl, -⟩ <;> rw [List.length_replicate] <;> decide
  exact ⟨heven, one_utterance_whisperFull.1,
    engine_input_voiced true none events heven _ one_utterance_whisperFull.1 rfl⟩

end State

end WhisperTranscriber
