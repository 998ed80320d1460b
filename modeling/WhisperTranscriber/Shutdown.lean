import WhisperTranscriber.System

/-!
# `Stop` and the processing thread

`Stop` clears `_running` and joins the processing thread.  That thread runs
`while (RunProcessingThread()) {}`, and `RunProcessingThread` returns `true` on
every path, so once `_running` is clear each call returns at once and the outer
loop calls it again.  The thread never exits, and the join never returns.

* `threadLive_step` — no step makes the thread exit or `RunProcessingThread`
  return `false`.
* `stop_never_returns` — after `Start` then `Stop`, under every continuation of
  the run, `Stop` is still waiting and the thread has not exited.
-/

namespace WhisperTranscriber

namespace State

/-- The processing thread has not exited, and `RunProcessingThread` is not about
to return `false`. -/
def ThreadLive (s : State) : Prop := s.thread ≠ .exited ∧ s.thread ≠ .returned false

theorem threadStep_live {s : State} (h : ThreadLive s) : ThreadLive s.threadStep.1 := by
  obtain ⟨hexit, hfalse⟩ := h
  cases hth : s.thread with
  | notStarted | exited => simp only [threadStep, hth]; exact ⟨hexit, hfalse⟩
  | checkRunning | checkAvailable => simp only [threadStep, hth, ThreadLive]; split <;> simp
  | resize | enqueue block => simp [threadStep, hth, ThreadLive]
  | read size => simp only [threadStep, hth]; split <;> simp [ThreadLive]
  | returned value =>
      cases value
      · exact absurd hth hfalse
      · simp [threadStep, hth, ThreadLive]

theorem threadLive_step {s : State} (e : Event) (h : ThreadLive s) : ThreadLive (s.step e).1 := by
  cases e with
  | start =>
      simp only [step, State.start]
      split
      · simp [ThreadLive]
      · exact h
  | stop => simp only [step, State.stop]; split <;> exact h
  | finalize =>
      simp only [step, State.finalize]
      split
      · simp [ThreadLive]
      · exact h
  | thread => exact threadStep_live h
  | _ => simpa [ThreadLive, step] using h

/-- While the thread is live, only the join could clear `stopping`, and the join
waits for the thread to exit. -/
theorem stopping_step {s : State} (e : Event) (h : ThreadLive s) (hs : s.stopping = true) :
    (s.step e).1.stopping = true := by
  cases e <;> simp [step, State.start, State.stop, State.finalize, hs, h.1]

/-- **`Stop` never returns.**  After `Start` then `Stop`, whatever the producer,
the processing thread and the tasks do next, `Stop` is still waiting in
`Finalize` and the processing thread has not exited. -/
theorem stop_never_returns (whisperContext : Bool) (speechAudioDevice : Option SpeechAudioDevice)
    (events : List Event) :
    let s := ((init whisperContext speechAudioDevice).run ([.start, .stop] ++ events)).1
    s.stopping = true ∧ s.thread ≠ .exited := by
  rw [run_append]
  have hlive := run_invariant (fun s => ThreadLive s ∧ s.stopping = true)
    (fun s e h => ⟨threadLive_step e h.1, stopping_step e h.1 h.2⟩)
    ((init whisperContext speechAudioDevice).run [.start, .stop]).1 events
    ⟨by simp [ThreadLive, init, run, step, State.start, State.stop], rfl⟩
  exact ⟨hlive.2, hlive.1.1⟩

end State

end WhisperTranscriber
