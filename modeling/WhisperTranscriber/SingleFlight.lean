import WhisperTranscriber.System

/-!
# The single-flight guard

`TranscribeAudioNonBlocking` claims `_processingActive` with an atomic exchange
and clears it on every path but one: the second null test of `_whisperContext`
returns without the reset.  That test cannot fail, because `_whisperContext` is
set only by the constructor and the first test already passed.  Over any number
of tasks and any interleaving, the guard is therefore set exactly when one task
holds it.

* `taskStep_guard` — one task step changes the number of holders exactly as it
  changes the guard.
* `guardInv_step` — the invariant `GuardInv` is preserved by every step.
* `single_flight` — over every run: the guard is set iff one task holds it, at
  most one task is inside `whisper_full`, the second context test always passes,
  a task that loses the exchange returns `false` at once, and the guard is clear
  when no task holds it.
-/

namespace WhisperTranscriber

/-- The positions past the first context test, reached only with a non-null
context. -/
def TaskPc.pastContext : TaskPc → Bool
  | .checkEmpty | .checkSize | .checkSamples | .checkContextAgain | .whisperFull | .release _ => true
  | _ => false

/-- The holder count moves with the guard: a step that claims the guard starts
holding it, and a step that clears it stops holding it.  The one step that
returns without clearing it needs a null context, which `hctx` excludes. -/
theorem taskStep_guard (whisperContext processingActive : Bool) (t : Task)
    (hctx : t.pc.pastContext = true → whisperContext = true)
    (hact : t.pc.holdsGuard = true → processingActive = true) :
    (if (taskStep whisperContext processingActive t).1.pc.holdsGuard then 1 else 0) +
        (if processingActive then 1 else 0) =
      (if t.pc.holdsGuard then 1 else 0) +
        (if (taskStep whisperContext processingActive t).2 then 1 else 0) ∧
    ((taskStep whisperContext processingActive t).1.pc.pastContext = true →
      whisperContext = true) := by
  obtain ⟨block, pcm, pc⟩ := t
  cases pc with
  | queued => simp only [taskStep]; split <;> exact ⟨rfl, nofun⟩
  -- the exchange claims the guard, or loses it to the task that holds it
  | exchange => cases processingActive <;> simp [taskStep, TaskPc.holdsGuard, TaskPc.pastContext]
  -- a null context releases the guard at the first test and is excluded at the second
  | checkContext | checkContextAgain =>
      cases whisperContext <;> simp_all [taskStep, TaskPc.holdsGuard, TaskPc.pastContext]
  | checkEmpty | checkSize | checkSamples =>
      simp only [taskStep]; split <;> simp_all [TaskPc.holdsGuard, TaskPc.pastContext]
  | release result => simp_all [taskStep, TaskPc.holdsGuard, TaskPc.pastContext]
  | whisperFull | returned value | skipped => simp_all [taskStep, TaskPc.pastContext]

/-- Replacing one element changes a count by the difference of the two
indicators. -/
theorem countP_set {α : Type} (p : α → Bool) (l : List α) (i : Nat) (a : α) (h : i < l.length) :
    (l.set i a).countP p + (if p l[i] then 1 else 0) = l.countP p + (if p a then 1 else 0) := by
  induction l generalizing i with
  | nil => simp at h
  | cons x xs ih =>
      cases i with
      | zero => simp only [List.set_cons_zero, List.countP_cons, List.getElem_cons_zero]; omega
      | succ i =>
          have := ih i (by simpa using h)
          simp only [List.set_cons_succ, List.countP_cons, List.getElem_cons_succ]
          omega

namespace State

/-- The guard invariant: the number of tasks holding the guard is one if it is
set and zero otherwise, and tasks past the first context test exist only with a
non-null context. -/
structure GuardInv (s : State) : Prop where
  holders : s.tasks.countP (fun t => t.pc.holdsGuard) = if s.processingActive then 1 else 0
  context : ∀ t ∈ s.tasks, t.pc.pastContext = true → s.whisperContext = true

theorem guardInv_init (whisperContext : Bool) (speechAudioDevice : Option SpeechAudioDevice) :
    GuardInv (init whisperContext speechAudioDevice) :=
  ⟨rfl, by simp [init]⟩

/-- A step that leaves the tasks, the guard and the context alone keeps the
invariant. -/
private theorem guardInv_of_frame {s s' : State} (h : GuardInv s) (ht : s'.tasks = s.tasks)
    (ha : s'.processingActive = s.processingActive) (hc : s'.whisperContext = s.whisperContext) :
    GuardInv s' :=
  ⟨by rw [ht, ha]; exact h.holders, by rw [ht, hc]; exact h.context⟩

theorem guardInv_runTask {s : State} (i : Nat) (h : GuardInv s) : GuardInv (s.runTask i) := by
  unfold runTask
  split
  · exact h
  · rename_i t ht
    obtain ⟨hi, rfl⟩ := List.getElem?_eq_some_iff.mp ht
    have hmem := List.getElem_mem hi
    have hact : s.tasks[i].pc.holdsGuard = true → s.processingActive = true := by
      intro hp
      have : 0 < s.tasks.countP (fun t => t.pc.holdsGuard) :=
        List.countP_pos_iff.mpr ⟨_, hmem, hp⟩
      rw [h.holders] at this
      split at this <;> simp_all
    obtain ⟨hcount, hpast⟩ :=
      taskStep_guard s.whisperContext s.processingActive s.tasks[i] (h.context _ hmem) hact
    have hset := countP_set (fun t : Task => t.pc.holdsGuard) s.tasks i
      (taskStep s.whisperContext s.processingActive s.tasks[i]).1 hi
    have hold := h.holders
    constructor
    · dsimp only at hset ⊢
      omega
    · intro t' ht' hp
      rcases List.mem_or_eq_of_mem_set ht' with ht' | rfl
      · exact h.context t' ht' hp
      · exact hpast hp

theorem guardInv_threadStep {s : State} (h : GuardInv s) : GuardInv s.threadStep.1 := by
  cases hth : s.thread with
  | enqueue block =>
      simp only [threadStep, hth]
      refine ⟨?_, ?_⟩
      · rw [List.countP_append, h.holders]
        rfl
      · intro t ht hp
        rcases List.mem_append.mp ht with ht | ht
        · exact h.context t ht hp
        · simp at ht; subst ht; simp [TaskPc.pastContext] at hp
  | read size =>
      simp only [threadStep, hth]
      split <;> exact guardInv_of_frame h rfl rfl rfl
  | _ => simp only [threadStep, hth]; exact guardInv_of_frame h rfl rfl rfl

theorem guardInv_whisperFullReturns {s : State} (i : Nat) (result : Int) (texts : List (Option String))
    (h : GuardInv s) : GuardInv (s.whisperFullReturns i result texts).1 := by
  unfold whisperFullReturns
  split
  · rename_i t ht
    split
    · rename_i hpc
      obtain ⟨hi, rfl⟩ := List.getElem?_eq_some_iff.mp ht
      have hset := countP_set (fun t : Task => t.pc.holdsGuard) s.tasks i
        { s.tasks[i] with pc := .release result } hi
      have hold : s.tasks[i].pc.holdsGuard = true := by rw [hpc]; rfl
      have hnew : ({ s.tasks[i] with pc := .release result } : Task).pc.holdsGuard = true := rfl
      simp only [hold, hnew, if_true] at hset
      refine ⟨?_, ?_⟩
      · dsimp only
        rw [← h.holders]
        omega
      · intro t' ht' hp
        rcases List.mem_or_eq_of_mem_set ht' with ht' | rfl
        · exact h.context t' ht' hp
        · exact h.context _ (List.getElem_mem hi) (by simp [hpc, TaskPc.pastContext])
    · exact h
  · exact h

theorem guardInv_step {s : State} (e : Event) (h : GuardInv s) : GuardInv (s.step e).1 := by
  cases e with
  | processAudioBuffer playoutBuffer avgAmplitude =>
      obtain ⟨seg, rb, n, hr⟩ := processAudioBuffer_frame s playoutBuffer avgAmplitude
      simp only [step, hr]
      exact guardInv_of_frame h rfl rfl rfl
  | start => simp only [step, State.start]; split <;> exact guardInv_of_frame h rfl rfl rfl
  | stop => simp only [step, State.stop]; split <;> exact guardInv_of_frame h rfl rfl rfl
  | finalize => simp only [step, State.finalize]; split <;> exact guardInv_of_frame h rfl rfl rfl
  | thread => exact guardInv_threadStep h
  | task i => exact guardInv_runTask i h
  | whisperFull i result texts => exact guardInv_whisperFullReturns i result texts h

/-- **Single flight.**  Over every interleaving of any number of tasks with the
other threads: the guard is set exactly when one task holds it; at most one task
is inside `whisper_full`; the second context test, which would return without
clearing the guard, always passes; a task that loses the exchange returns
`false` at once and leaves the guard set for its holder; and the guard is clear
whenever no task holds it. -/
theorem single_flight (whisperContext : Bool) (speechAudioDevice : Option SpeechAudioDevice)
    (events : List Event) :
    let s := ((init whisperContext speechAudioDevice).run events).1
    (s.processingActive = true ↔ s.tasks.countP (fun t => t.pc.holdsGuard) = 1) ∧
      s.tasks.countP (fun t => t.pc.holdsGuard) ≤ 1 ∧
      s.tasks.countP (fun t => t.pc == .whisperFull) ≤ 1 ∧
      (∀ t ∈ s.tasks, t.pc = .checkContextAgain → s.whisperContext = true) ∧
      (∀ (i : Nat) (t : Task), s.tasks[i]? = some t → t.pc = .exchange →
        s.processingActive = true →
          (s.runTask i).tasks[i]? = some { t with pc := .returned false } ∧
            (s.runTask i).processingActive = true) ∧
      ((∀ t ∈ s.tasks, t.pc.holdsGuard = false) → s.processingActive = false) := by
  intro s
  have h : GuardInv s :=
    run_invariant GuardInv (fun _ e h => guardInv_step e h) _ events (guardInv_init _ _)
  have hold := h.holders
  have hle : s.tasks.countP (fun t => t.pc.holdsGuard) ≤ 1 := by
    rw [hold]; split <;> omega
  refine ⟨?_, hle, ?_, ?_, ?_, ?_⟩
  · rw [hold]; split <;> simp_all
  · refine Nat.le_trans (List.countP_mono_left fun t _ ht => ?_) hle
    simp only [beq_iff_eq] at ht
    simp [ht, TaskPc.holdsGuard]
  · intro t ht hpc
    exact h.context t ht (by simp [hpc, TaskPc.pastContext])
  · intro i t ht hpc hact
    obtain ⟨hi, rfl⟩ := List.getElem?_eq_some_iff.mp ht
    simp [runTask, ht, taskStep, hpc, hact, hi]
  · intro hnone
    have : s.tasks.countP (fun t => t.pc.holdsGuard) = 0 :=
      List.countP_eq_zero.mpr fun t ht => by simp [hnone t ht]
    rw [hold] at this
    split at this <;> simp_all

end State

end WhisperTranscriber
