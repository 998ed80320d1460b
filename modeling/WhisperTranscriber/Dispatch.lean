import WhisperTranscriber.System

/-!
# Blocks handed to the worker pool

The producer writes whole segments into the ring buffer, one per write, and the
processing thread drains everything available in one read.  Between its test of
`availableToRead()` and its read, only the producer touches the ring buffer, and
only by appending, so every drained block is one or more whole segments.

The validation of `TranscribeAudioNonBlocking` accepts at most `kTargetSamples`
samples, that is `2 * kTargetSamples` bytes: a block that drains two segments
always passes, one that drains more may not.

* `dispatchInv_step` — the ring buffer holds whole segments, and the thread's
  position agrees with it, after every step.
* `dispatched_block_segments` — every block enqueued to the worker pool is a
  non-empty concatenation of segments, has even length, at least `kSampleRate`
  samples all within `[-1, 1]`, and passes the input checks iff it holds at most
  `2 * kTargetSamples` bytes.
* `run_start_utterances_drain` — utterances written before the thread first polls
  are enqueued together, as one block; three of them can exceed the size check.
* `run_utterance_round` — from a quiet state, one utterance, its silence and a
  drain write the utterance, enqueue it as one new task and leave the state
  quiet.
* `utterances_one_task_each` — from every quiet state, utterances each followed
  by silence and a drain reach the worker pool as one task each, in order.
-/

namespace WhisperTranscriber

/-- A range the segmenter writes: an even number of bytes between one and twelve
seconds of audio. -/
def ValidSegment (seg : List UInt8) : Prop :=
  Even seg.length ∧ 2 * kSampleRate ≤ seg.length ∧ seg.length ≤ kTargetSamples

/-- Bytes that are a concatenation of whole segments. -/
def WholeSegments (bytes : List UInt8) : Prop :=
  ∃ segs : List (List UInt8), bytes = segs.flatten ∧ ∀ seg ∈ segs, ValidSegment seg

theorem wholeSegments_nil : WholeSegments [] := ⟨[], rfl, by simp⟩

theorem WholeSegments.append {a b : List UInt8} (ha : WholeSegments a) (hb : WholeSegments b) :
    WholeSegments (a ++ b) := by
  obtain ⟨sa, rfl, hsa⟩ := ha
  obtain ⟨sb, rfl, hsb⟩ := hb
  exact ⟨sa ++ sb, by simp, fun seg h => (List.mem_append.mp h).elim (hsa seg) (hsb seg)⟩

theorem wholeSegments_of_valid {seg : List UInt8} (h : ValidSegment seg) : WholeSegments seg :=
  ⟨[seg], by simp, by simpa using h⟩

theorem WholeSegments.even {bytes : List UInt8} (h : WholeSegments bytes) : Even bytes.length := by
  obtain ⟨segs, rfl, hsegs⟩ := h
  induction segs with
  | nil => simp
  | cons seg segs ih =>
      simp only [List.flatten_cons, List.length_append]
      exact (hsegs seg (List.mem_cons_self _ _)).1.add
        (ih fun seg' h => hsegs seg' (List.mem_cons_of_mem _ h))

theorem WholeSegments.length_ge {bytes : List UInt8} (h : WholeSegments bytes) (hne : bytes ≠ []) :
    2 * kSampleRate ≤ bytes.length := by
  obtain ⟨segs, rfl, hsegs⟩ := h
  obtain ⟨seg, hseg, hne'⟩ : ∃ seg ∈ segs, seg ≠ [] := by
    by_contra hall
    push_neg at hall
    exact hne (List.flatten_eq_nil_iff.mpr hall)
  calc 2 * kSampleRate ≤ seg.length := (hsegs seg hseg).2.1
    _ ≤ segs.flatten.length := List.Sublist.length_le (List.sublist_flatten_of_mem hseg)

namespace State

/-- What the processing thread knows about the ring buffer at each position:
after its test the buffer is non-empty; at its read, the size it took is a
prefix of whole segments; at its enqueue, the block is whole segments. -/
def ThreadView : ThreadPc → List UInt8 → Prop
  | .resize, data => data ≠ []
  | .read size, data => ∃ pre post, data = pre ++ post ∧ pre.length = size ∧ pre ≠ [] ∧
      WholeSegments pre ∧ WholeSegments post
  | .enqueue block, _ => block ≠ [] ∧ WholeSegments block
  | _, _ => True

/-- The dispatch invariant on the accumulator, the ring buffer's bytes and the
thread's position: an even accumulator, whole segments in the ring buffer, and
the thread's view of them. -/
structure DispatchView (acc data : List UInt8) (thread : ThreadPc) : Prop where
  even : Even acc.length
  ring : WholeSegments data
  view : ThreadView thread data

/-- The dispatch invariant of a state. -/
def DispatchInv (s : State) : Prop :=
  DispatchView s.segmenter.accumulatedByteBuffer s.audioBuffer.data s.thread

theorem dispatchInv_init (whisperContext : Bool) (speechAudioDevice : Option SpeechAudioDevice) :
    DispatchInv (init whisperContext speechAudioDevice) :=
  ⟨by simp [init, Segmenter.init], wholeSegments_nil, trivial⟩

/-- Appending whole segments keeps the thread's view. -/
theorem ThreadView.append {th : ThreadPc} {data w : List UInt8} (h : ThreadView th data)
    (hw : WholeSegments w) : ThreadView th (data ++ w) := by
  cases th with
  | resize => exact fun h' => h (List.append_eq_nil.mp h').1
  | read size =>
      obtain ⟨pre, post, rfl, hlen, hne, hpre, hpost⟩ := h
      exact ⟨pre, post ++ w, by simp, hlen, hne, hpre, hpost.append hw⟩
  | enqueue block => exact h
  | _ => trivial

theorem dispatchInv_processAudioBuffer {s : State} (playoutBuffer : List UInt8) (avgAmplitude : ℚ)
    (h : DispatchInv s) : DispatchInv (s.processAudioBuffer playoutBuffer avgAmplitude).1 := by
  have heven := s.segmenter.even_processAudioBuffer playoutBuffer avgAmplitude h.even
  have hw := s.segmenter.processAudioBuffer_written playoutBuffer avgAmplitude h.even
  unfold processAudioBuffer
  dsimp only
  split
  · exact ⟨heven, h.ring, h.view⟩
  · rename_i bytes hbytes
    have hvalid : WholeSegments bytes := wholeSegments_of_valid (hw bytes (by simp [hbytes]))
    split
    · rename_i rb hrb
      show DispatchView _ rb.data _
      rw [(AudioRingBuffer.write_eq_some hrb).1]
      exact ⟨heven, h.ring.append hvalid, h.view.append hvalid⟩
    · unfold handleOverflow
      dsimp only
      split
      · exact ⟨heven, h.ring, h.view⟩
      · exact ⟨heven, h.ring, h.view⟩

theorem dispatchInv_threadStep {s : State} (h : DispatchInv s) : DispatchInv s.threadStep.1 := by
  obtain ⟨heven, hring, hview⟩ := h
  cases hth : s.thread with
  | checkRunning => simp only [threadStep, hth]; exact ⟨heven, hring, by split <;> trivial⟩
  | checkAvailable =>
      simp only [threadStep, hth]
      refine ⟨heven, hring, ?_⟩
      split
      · rename_i hpos
        exact List.ne_nil_of_length_pos hpos
      · trivial
  | resize =>
      simp only [threadStep, hth]
      rw [hth] at hview
      exact ⟨heven, hring, s.audioBuffer.data, [], by simp, rfl, hview, hring, wholeSegments_nil⟩
  | read size =>
      rw [hth] at hview
      obtain ⟨pre, post, hdata, hlen, hne, hpre, hpost⟩ := hview
      simp only [threadStep, hth]
      split
      · rename_i block rb hrb
        obtain ⟨hblock, hrest, -⟩ := AudioRingBuffer.read_eq_some hrb
        rw [hdata, ← hlen, List.take_left] at hblock
        rw [hdata, ← hlen, List.drop_left] at hrest
        exact ⟨heven, hrest ▸ hpost, hblock ▸ hne, hblock ▸ hpre⟩
      · exact ⟨heven, hring, trivial⟩
  | enqueue block => simp only [threadStep, hth]; exact ⟨heven, hring, trivial⟩
  | returned value => simp only [threadStep, hth]; exact ⟨heven, hring, by split <;> trivial⟩
  | notStarted | exited => simp only [threadStep, hth]; exact ⟨heven, hring, hth ▸ hview⟩

theorem dispatchInv_step {s : State} (e : Event) (h : DispatchInv s) : DispatchInv (s.step e).1 := by
  cases e with
  | processAudioBuffer playoutBuffer avgAmplitude => exact dispatchInv_processAudioBuffer _ _ h
  | start =>
      simp only [step, State.start]
      split
      · exact ⟨h.even, h.ring, trivial⟩
      · exact h
  | stop => simp only [step, State.stop]; split <;> exact h
  | finalize =>
      simp only [step, State.finalize]
      split
      · exact ⟨by simp, h.ring, trivial⟩
      · exact h
  | thread => exact dispatchInv_threadStep h
  | task i =>
      obtain ⟨tasks, active, hr⟩ := runTask_frame s i
      simp only [step, hr]
      exact h
  | whisperFull i result texts =>
      obtain ⟨tasks, hr⟩ := whisperFullReturns_frame s i result texts
      simp only [step, hr]
      exact h

/-- Every block a step enqueues is non-empty whole segments. -/
theorem dispatchInv_obs {s : State} (e : Event) (h : DispatchInv s) :
    ∀ o ∈ (s.step e).2, ∀ block, o = .enqueue block → block ≠ [] ∧ WholeSegments block := by
  rintro o ho block rfl
  cases e with
  | processAudioBuffer playoutBuffer avgAmplitude =>
      rcases processAudioBuffer_obs s playoutBuffer avgAmplitude with h0 | ⟨bytes, ok, h1⟩
      · simp [step, h0] at ho
      · simp [step, h1] at ho
  | thread =>
      rcases threadStep_obs s with h0 | ⟨b, hth, h1⟩
      · simp [step, h0] at ho
      · have hview := h.view
        simp only [step, h1, List.mem_singleton, Obs.enqueue.injEq] at ho
        rw [hth, ← ho] at hview
        exact hview
  | whisperFull i result texts =>
      obtain ⟨out, h1⟩ := whisperFullReturns_obs s i result texts
      cases out <;> simp [step, h1] at ho
  | _ => simp [step] at ho

end State

/-- The samples of a block of whole segments pass every input check except
possibly the upper size bound, which they pass iff the block holds at most
`2 * kTargetSamples` bytes. -/
theorem inputAccepted_toPcmF32 {block : List UInt8} (h : WholeSegments block) (hne : block ≠ []) :
    kSampleRate ≤ (toPcmF32 block).length ∧ (∀ x ∈ toPcmF32 block, |x| ≤ 1) ∧
      (inputAccepted (toPcmF32 block) = true ↔ block.length ≤ 2 * kTargetSamples) := by
  have hev := Nat.even_iff.mp h.even
  have hge := h.length_ge hne
  have hsamples : ∀ x ∈ toPcmF32 block, |x| ≤ 1 := by
    intro x hx
    obtain ⟨sample, -, rfl⟩ := List.mem_map.mp hx
    exact abs_sampleToFloat_le_one sample
  have hlen := length_toPcmF32 block
  refine ⟨by omega, hsamples, ?_⟩
  have hnot : (toPcmF32 block).any sampleRejected = false := by
    simpa [sampleRejected] using fun x hx => hsamples x hx
  have hpos : (toPcmF32 block).isEmpty = false := by
    cases hb : toPcmF32 block with
    | nil =>
        have hk : kSampleRate = 16000 := rfl
        rw [hb] at hlen; simp at hlen; omega
    | cons x xs => rfl
  simp only [inputAccepted, sizeRejected, hnot, hpos, hlen, Bool.not_false, Bool.true_and,
    Bool.and_true, Bool.not_eq_true', Bool.or_eq_false_iff, decide_eq_false_iff_not]
  constructor
  · rintro ⟨-, h2⟩; omega
  · intro h2; constructor <;> omega

/-- **Dispatched blocks.**  Over every interleaving of the producer, the owner,
the processing thread and the tasks, every block enqueued to the worker pool is a
non-empty concatenation of whole segments; it has even length, converts to at
least `kSampleRate` samples all within `[-1, 1]`, and passes the input checks of
`TranscribeAudioNonBlocking` iff it holds at most `2 * kTargetSamples` bytes. -/
theorem dispatched_block_segments (whisperContext : Bool)
    (speechAudioDevice : Option SpeechAudioDevice) (events : List Event) (block : List UInt8)
    (h : Obs.enqueue block ∈ ((State.init whisperContext speechAudioDevice).run events).2) :
    (∃ segs : List (List UInt8), segs ≠ [] ∧ block = segs.flatten ∧ ∀ seg ∈ segs, ValidSegment seg) ∧
      Even block.length ∧ kSampleRate ≤ (toPcmF32 block).length ∧
      (∀ x ∈ toPcmF32 block, |x| ≤ 1) ∧
      (inputAccepted (toPcmF32 block) = true ↔ block.length ≤ 2 * kTargetSamples) := by
  obtain ⟨hne, hwhole⟩ := State.run_obs State.DispatchInv
    (fun o => ∀ block, o = .enqueue block → block ≠ [] ∧ WholeSegments block)
    (fun _ e h => State.dispatchInv_step e h) (fun _ e h => State.dispatchInv_obs e h)
    _ events (State.dispatchInv_init _ _) _ h block rfl
  refine ⟨?_, hwhole.even, inputAccepted_toPcmF32 hwhole hne⟩
  obtain ⟨segs, hsegs, hvalid⟩ := hwhole
  exact ⟨segs, fun hnil => hne (by rw [hsegs, hnil, List.flatten_nil]), hsegs, hvalid⟩

/-! ### Runs that drain segments -/

/-- An utterance: a voiced block of one to twelve seconds, both included, at a
positive average amplitude. -/
def Utterance (block : List UInt8) (avgAmplitude : ℚ) : Prop :=
  Even block.length ∧ 2 * kSampleRate ≤ block.length ∧ block.length ≤ kTargetSamples ∧
    0 < avgAmplitude

/-- An utterance from an empty accumulator, then `kSilenceSamples` bytes of
silence: the two calls write the block once and whole, and leave the segmenter
outside a segment with nothing accumulated.  A block under `kTargetSamples`
bytes waits for the end-of-speech flush of the second call; a block of exactly
`kTargetSamples` bytes leaves at once by the continuous-speech flush, and the
silence then ends a segment with nothing to flush. -/
theorem Segmenter.utterance_silence_writes_once (seg : Segmenter) (ha : seg.accumulatedByteBuffer = [])
    {block : List UInt8} {avgAmplitude : ℚ} (hu : Utterance block avgAmplitude) :
    ((seg.processAudioBuffer block avgAmplitude).2 = none ∧
        ((seg.processAudioBuffer block avgAmplitude).1.processAudioBuffer
          (List.replicate kSilenceSamples 0) 0).2 = some block ∨
      (seg.processAudioBuffer block avgAmplitude).2 = some block ∧
        ((seg.processAudioBuffer block avgAmplitude).1.processAudioBuffer
          (List.replicate kSilenceSamples 0) 0).2 = none) ∧
      ((seg.processAudioBuffer block avgAmplitude).1.processAudioBuffer
          (List.replicate kSilenceSamples 0) 0).1.inVoiceSegment = false ∧
      ((seg.processAudioBuffer block avgAmplitude).1.processAudioBuffer
          (List.replicate kSilenceSamples 0) 0).1.silentSamplesCount = 0 ∧
      ((seg.processAudioBuffer block avgAmplitude).1.processAudioBuffer
          (List.replicate kSilenceSamples 0) 0).1.accumulatedByteBuffer = [] := by
  obtain ⟨he₁, hlo, hhi, hpos⟩ := hu
  have he₂ : Even (List.replicate kSilenceSamples (0 : UInt8)).length := by
    rw [List.length_replicate]; decide
  have hv₁ : voicePresent seg.inVoiceSegment avgAmplitude = true := by
    simpa [voicePresent_eq] using hpos
  have hin : (seg.processAudioBuffer block avgAmplitude).1.inVoiceSegment = true := by
    rw [Segmenter.inVoiceSegment_processAudioBuffer, if_pos hv₁]
  have hsil : (seg.processAudioBuffer block avgAmplitude).1.silentSamplesCount = 0 := by
    rw [Segmenter.silentSamplesCount_processAudioBuffer, if_pos hv₁]
  -- the first call keeps the whole block, or flushes it whole
  have hfirst : ((seg.processAudioBuffer block avgAmplitude).2 = none ∧
        (seg.processAudioBuffer block avgAmplitude).1.accumulatedByteBuffer = block) ∨
      ((seg.processAudioBuffer block avgAmplitude).2 = some block ∧
        (seg.processAudioBuffer block avgAmplitude).1.accumulatedByteBuffer = []) := by
    rw [Segmenter.written_processAudioBuffer, Segmenter.accumulatedByteBuffer_processAudioBuffer,
      if_pos hv₁, if_pos hv₁, ha, pcm16Encode_pcm16Decode he₁, List.nil_append, List.length_nil,
      Nat.zero_add]
    by_cases hk : kTargetSamples ≤ block.length
    · rw [if_pos hk, if_pos hk, List.take_of_length_le hhi, List.drop_of_length_le hhi]
      exact .inr ⟨rfl, rfl⟩
    · rw [if_neg hk, if_neg hk]
      exact .inl ⟨rfl, rfl⟩
  generalize seg.processAudioBuffer block avgAmplitude = r₁ at hin hsil hfirst ⊢
  have hv₂ : voicePresent r₁.1.inVoiceSegment 0 = false := by simp [voicePresent]
  have hend : r₁.1.inVoiceSegment = true ∧ kSilenceSamples ≤
      r₁.1.silentSamplesCount + (pcm16Encode (pcm16Decode (List.replicate kSilenceSamples (0 : UInt8)))).length := by
    rw [hin, hsil, pcm16Encode_pcm16Decode he₂, List.length_replicate]; exact ⟨rfl, Nat.le_add_left _ _⟩
  simp only [Segmenter.written_processAudioBuffer, Segmenter.inVoiceSegment_processAudioBuffer,
    Segmenter.silentSamplesCount_processAudioBuffer, Segmenter.accumulatedByteBuffer_processAudioBuffer,
    hv₂, Bool.false_eq_true, if_false, if_pos hend, and_self, and_true]
  rcases hfirst with ⟨hw, hacc⟩ | ⟨hw, hacc⟩
  · have hflush : kSampleRate * 2 ≤ block.length := by rwa [Nat.mul_comm] at hlo
    simp [hw, hacc, hflush, Nat.min_eq_left hhi, List.drop_of_length_le hhi]
  · have hk : kSampleRate ≠ 0 := by decide
    simp [hw, hacc, hk]

/-- One utterance, then `kSilenceSamples` bytes of digital silence, as scheduling
events of the producer. -/
def utteranceEvents (block : List UInt8) (avgAmplitude : ℚ) : List Event :=
  [.processAudioBuffer block avgAmplitude, .processAudioBuffer (List.replicate kSilenceSamples 0) 0]

/-- Five steps of the processing thread: from its loop head to an enqueue. -/
def drainEvents : List Event := [.thread, .thread, .thread, .thread, .thread]

namespace State

/-- An utterance from an empty accumulator writes its block to the ring buffer
when it fits, and leaves the accumulator empty and the threads where they were. -/
theorem run_utterance (s : State) (ha : s.segmenter.accumulatedByteBuffer = [])
    {block : List UInt8} {avgAmplitude : ℚ} (hu : Utterance block avgAmplitude)
    (hfit : s.audioBuffer.data.length + block.length ≤ s.audioBuffer.capacity) :
    (s.run (utteranceEvents block avgAmplitude)).2 = [.write block true] ∧
      (s.run (utteranceEvents block avgAmplitude)).1.segmenter.accumulatedByteBuffer = [] ∧
      (s.run (utteranceEvents block avgAmplitude)).1.audioBuffer.data = s.audioBuffer.data ++ block ∧
      (s.run (utteranceEvents block avgAmplitude)).1.audioBuffer.capacity = s.audioBuffer.capacity ∧
      (s.run (utteranceEvents block avgAmplitude)).1.thread = s.thread ∧
      (s.run (utteranceEvents block avgAmplitude)).1.running = s.running := by
  obtain ⟨hw, -, -, hacc⟩ := s.segmenter.utterance_silence_writes_once ha hu
  rcases hw with ⟨h₁, h₂⟩ | ⟨h₁, h₂⟩ <;>
    simp only [utteranceEvents, run_cons, run_nil, step, processAudioBuffer, h₁, h₂,
      AudioRingBuffer.write, dif_pos hfit, List.append_nil, List.nil_append, and_true, true_and] <;>
    exact hacc

/-- Utterances that fit in the ring buffer, one after another, are written to it
in order. -/
theorem run_utterances (segs : List (List UInt8 × ℚ)) (hsegs : ∀ u ∈ segs, Utterance u.1 u.2)
    (s : State) (ha : s.segmenter.accumulatedByteBuffer = [])
    (hfit : s.audioBuffer.data.length + (segs.map Prod.fst).flatten.length ≤ s.audioBuffer.capacity) :
    (s.run (segs.map fun u => utteranceEvents u.1 u.2).flatten).2 =
        segs.map (fun u => .write u.1 true) ∧
      (s.run (segs.map fun u => utteranceEvents u.1 u.2).flatten).1.segmenter.accumulatedByteBuffer = [] ∧
      (s.run (segs.map fun u => utteranceEvents u.1 u.2).flatten).1.audioBuffer.data =
        s.audioBuffer.data ++ (segs.map Prod.fst).flatten ∧
      (s.run (segs.map fun u => utteranceEvents u.1 u.2).flatten).1.audioBuffer.capacity =
        s.audioBuffer.capacity ∧
      (s.run (segs.map fun u => utteranceEvents u.1 u.2).flatten).1.thread = s.thread ∧
      (s.run (segs.map fun u => utteranceEvents u.1 u.2).flatten).1.running = s.running := by
  induction segs generalizing s with
  | nil => simpa using ha
  | cons u segs ih =>
      rw [List.map_cons, List.flatten_cons, List.length_append] at hfit
      obtain ⟨o₁, a₁, d₁, c₁, t₁, r₁⟩ :=
        s.run_utterance ha (hsegs u (List.mem_cons_self _ _)) (by omega)
      obtain ⟨o₂, a₂, d₂, c₂, t₂, r₂⟩ := ih (fun v hv => hsegs v (List.mem_cons_of_mem _ hv)) _ a₁
        (by rw [d₁, c₁, List.length_append]; omega)
      simp only [List.map_cons, List.flatten_cons, run_append, o₁, o₂, a₂, d₂, d₁, c₂, c₁, t₂, t₁,
        r₂, r₁, List.singleton_append, List.append_assoc, and_self]

/-- The processing thread, at its loop head with `_running` set and bytes in the
ring buffer, enqueues all of them in five steps. -/
theorem run_drain (s : State) (hth : s.thread = .checkRunning) (hrun : s.running = true)
    (hne : s.audioBuffer.data ≠ []) :
    (s.run drainEvents).2 = [.enqueue s.audioBuffer.data] := by
  have hpos : 0 < s.audioBuffer.data.length := List.length_pos.mpr hne
  simp [drainEvents, run_cons, step, threadStep, hth, hrun, hpos, AudioRingBuffer.read, hne,
    AudioRingBuffer.availableToRead]

/-- From a fresh start, utterances that together fit in the ring buffer and are
written before the processing thread first polls it are enqueued as one block. -/
theorem run_start_utterances_drain (whisperContext : Bool)
    (speechAudioDevice : Option SpeechAudioDevice) (segs : List (List UInt8 × ℚ)) (hne : segs ≠ [])
    (hsegs : ∀ u ∈ segs, Utterance u.1 u.2)
    (hfit : (segs.map Prod.fst).flatten.length ≤ kRingBufferSizeIncrement) :
    ((init whisperContext speechAudioDevice).run
        (.start :: (segs.map fun u => utteranceEvents u.1 u.2).flatten ++ drainEvents)).2 =
      segs.map (fun u => .write u.1 true) ++ [.enqueue (segs.map Prod.fst).flatten] := by
  obtain ⟨o, -, d, -, t, r⟩ := run_utterances segs hsegs
    ((init whisperContext speechAudioDevice).step .start).1 rfl
    (by change ([] : List UInt8).length + _ ≤ kRingBufferSizeIncrement; simpa using hfit)
  obtain ⟨u, rest, rfl⟩ := List.exists_cons_of_ne_nil hne
  have hu : u.1 ≠ [] := by
    have := (hsegs u (List.mem_cons_self _ _)).2.1
    have hk : kSampleRate = 16000 := rfl
    exact List.ne_nil_of_length_pos (by omega)
  have hdata : (((init whisperContext speechAudioDevice).step .start).1.run
      ((u :: rest).map fun u => utteranceEvents u.1 u.2).flatten).1.audioBuffer.data ≠ [] := by
    rw [d]
    simp [hu]
  rw [List.cons_append, run_cons, run_append, run_drain _ (t.trans rfl) (r.trans rfl) hdata, o, d]
  rfl

/-- The pipeline between utterances: `_running` set, the processing thread at
the head of its loop, nothing accumulated, and the ring buffer empty with room
for a segment of `kTargetSamples` bytes. -/
structure Quiet (s : State) : Prop where
  running : s.running = true
  thread : s.thread = .checkRunning
  accumulated : s.segmenter.accumulatedByteBuffer = []
  empty : s.audioBuffer.data = []
  room : kTargetSamples ≤ s.audioBuffer.capacity

/-- A quiet state stays quiet when only the tasks change and the segmenter is
left with nothing accumulated. -/
theorem Quiet.update {s : State} (hq : s.Quiet) {seg : Segmenter} (hseg : seg.accumulatedByteBuffer = [])
    (tasks : List Task) : ({ s with segmenter := seg, tasks := tasks } : State).Quiet :=
  ⟨hq.running, hq.thread, hseg, hq.empty, hq.room⟩

/-- **One round of dispatch.**  From a quiet state, an utterance, its silence
and five steps of the processing thread write the utterance and enqueue it as
one new task; the segmenter is left with nothing accumulated, and every other
member is as it was. -/
theorem run_utterance_round (s : State) (hq : s.Quiet) {block : List UInt8} {avgAmplitude : ℚ}
    (hu : Utterance block avgAmplitude) :
    (s.run (utteranceEvents block avgAmplitude ++ drainEvents)).2 = [.write block true, .enqueue block] ∧
      ∃ seg : Segmenter, seg.accumulatedByteBuffer = [] ∧
        (s.run (utteranceEvents block avgAmplitude ++ drainEvents)).1 =
          { s with segmenter := seg, tasks := s.tasks ++ [⟨block, [], .queued⟩] } := by
  have hpos : 0 < block.length := by
    have := hu.2.1
    have hk : kSampleRate = 16000 := rfl
    omega
  have hfit : block.length ≤ s.audioBuffer.capacity := hu.2.2.1.trans hq.room
  obtain ⟨hw, -, -, hacc⟩ := s.segmenter.utterance_silence_writes_once hq.accumulated hu
  obtain ⟨segmenter, ⟨capacity, data, hle⟩, overflowCount, running, processingActive, whisperContext,
    speechAudioDevice, thread, stopping, tasks⟩ := s
  obtain ⟨hrun, hth, -, hdata, -⟩ := hq
  dsimp only at hrun hth hdata hfit hw hacc ⊢
  subst hrun hth hdata
  refine ⟨?_, _, hacc, ?_⟩ <;> rcases hw with ⟨h₁, h₂⟩ | ⟨h₁, h₂⟩ <;>
    simp [utteranceEvents, drainEvents, run_cons, step, processAudioBuffer, h₁, h₂,
      AudioRingBuffer.write, hfit, threadStep, AudioRingBuffer.availableToRead, AudioRingBuffer.read,
      hpos, List.ne_nil_of_length_pos hpos]

/-- **One task per utterance.**  From every quiet state, utterances of one to
twelve seconds, each followed by `kSilenceSamples` bytes of silence and five
steps of the processing thread, are each written to the ring buffer once and
whole, and each reach the worker pool as exactly one task holding exactly its
bytes, in order; the pipeline is quiet again after each. -/
theorem utterances_one_task_each (s : State) (hq : s.Quiet) (us : List (List UInt8 × ℚ))
    (hus : ∀ u ∈ us, Utterance u.1 u.2) :
    (s.run (us.map fun u => utteranceEvents u.1 u.2 ++ drainEvents).flatten).2 =
        (us.map fun u => [Obs.write u.1 true, .enqueue u.1]).flatten ∧
      (s.run (us.map fun u => utteranceEvents u.1 u.2 ++ drainEvents).flatten).1.tasks =
        s.tasks ++ us.map (fun u => ⟨u.1, [], .queued⟩) ∧
      (s.run (us.map fun u => utteranceEvents u.1 u.2 ++ drainEvents).flatten).1.Quiet := by
  induction us generalizing s with
  | nil => simpa using hq
  | cons u us ih =>
      obtain ⟨hobs, seg, hseg, hstate⟩ := s.run_utterance_round hq (hus u (List.mem_cons_self _ _))
      obtain ⟨o, t, q⟩ := ih _ (hq.update hseg _) fun v hv => hus v (List.mem_cons_of_mem _ hv)
      rw [List.map_cons, List.flatten_cons, run_append, hstate, hobs]
      exact ⟨by rw [o]; rfl, by rw [t, List.append_assoc]; rfl, q⟩

theorem utterances_one_task_each_one_second :
    let s := ((init true none).run [.start]).1
    let us : List (List UInt8 × ℚ) := [(List.replicate 32000 0, 1)]
    s.Quiet ∧ (∀ u ∈ us, Utterance u.1 u.2) ∧
      ((s.run (us.map fun u => utteranceEvents u.1 u.2 ++ drainEvents).flatten).2 =
          (us.map fun u => [Obs.write u.1 true, .enqueue u.1]).flatten ∧
        (s.run (us.map fun u => utteranceEvents u.1 u.2 ++ drainEvents).flatten).1.tasks =
          s.tasks ++ us.map (fun u => ⟨u.1, [], .queued⟩) ∧
        (s.run (us.map fun u => utteranceEvents u.1 u.2 ++ drainEvents).flatten).1.Quiet) := by
  intro s us
  have hroom : kTargetSamples ≤ kRingBufferSizeIncrement := by decide
  have hq : s.Quiet := ⟨rfl, rfl, rfl, rfl, hroom⟩
  have hu : Utterance (List.replicate 32000 0) 1 := by
    simp only [Utterance, List.length_replicate]; decide
  have hus : ∀ u ∈ us, Utterance u.1 u.2 := fun u h => by
    rw [List.mem_singleton] at h; subst h; exact hu
  exact ⟨hq, hus, utterances_one_task_each s hq us hus⟩

end State

theorem dispatched_block_segments_one_utterance :
    Obs.enqueue (List.replicate 32000 0) ∈ ((State.init true none).run
        (.start :: utteranceEvents (List.replicate 32000 0) 1 ++ drainEvents)).2 ∧
      ((∃ segs : List (List UInt8), segs ≠ [] ∧ List.replicate 32000 0 = segs.flatten ∧
          ∀ seg ∈ segs, ValidSegment seg) ∧
        Even (List.replicate 32000 (0 : UInt8)).length ∧
        kSampleRate ≤ (toPcmF32 (List.replicate 32000 0)).length ∧
        (∀ x ∈ toPcmF32 (List.replicate 32000 0), |x| ≤ 1) ∧
        (inputAccepted (toPcmF32 (List.replicate 32000 0)) = true ↔
          (List.replicate 32000 (0 : UInt8)).length ≤ 2 * kTargetSamples)) := by
  have hrun := State.run_start_utterances_drain true none [(List.replicate 32000 0, 1)]
    (List.cons_ne_nil _ _)
    (by simp only [List.mem_singleton, forall_eq, Utterance, List.length_replicate]; decide)
    (by rw [List.map_singleton, List.flatten_singleton, List.length_replicate]; decide)
  simp only [List.map_cons, List.map_nil, List.flatten_cons, List.flatten_nil,
    List.append_nil] at hrun
  have hmem : Obs.enqueue (List.replicate 32000 0) ∈ ((State.init true none).run
      (.start :: utteranceEvents (List.replicate 32000 0) 1 ++ drainEvents)).2 := by
    rw [hrun]
    exact List.mem_append_right _ (List.mem_singleton_self _)
  exact ⟨hmem, dispatched_block_segments true none _ _ hmem⟩

/-- Three utterances of 320000 bytes before the processing thread polls: it
drains 960000 bytes, 480000 samples, in one block, and the size check of
`TranscribeAudioNonBlocking` rejects it. -/
theorem three_utterances_block_rejected :
    Obs.enqueue (List.replicate 960000 0) ∈ ((State.init true none).run
        (.start :: utteranceEvents (List.replicate 320000 0) 1 ++
          utteranceEvents (List.replicate 320000 0) 1 ++
          utteranceEvents (List.replicate 320000 0) 1 ++ drainEvents)).2 ∧
      inputAccepted (toPcmF32 (List.replicate 960000 0)) = false := by
  have hrun : ∀ r : List UInt8, Utterance r 1 → r.length = 320000 →
      Obs.enqueue (r ++ (r ++ r)) ∈ ((State.init true none).run (.start :: utteranceEvents r 1 ++
        utteranceEvents r 1 ++ utteranceEvents r 1 ++ drainEvents)).2 := by
    intro r hu hr
    have h := State.run_start_utterances_drain true none [(r, 1), (r, 1), (r, 1)]
      (List.cons_ne_nil _ _)
      (by simp only [List.mem_cons, List.mem_singleton, List.not_mem_nil, or_false, or_self,
        forall_eq]; exact hu)
      (by simp only [List.map_cons, List.map_nil, List.flatten_cons, List.flatten_nil,
        List.length_append, hr, List.length_nil]; decide)
    simp only [List.map_cons, List.map_nil, List.flatten_cons, List.flatten_nil, List.append_nil,
      List.append_assoc, List.cons_append] at h ⊢
    rw [h]
    simp only [List.mem_cons, List.nil_append, true_or, or_true]
  have hblock : List.replicate 320000 (0 : UInt8) ++
      (List.replicate 320000 0 ++ List.replicate 320000 0) = List.replicate 960000 0 := by
    simp only [List.append_replicate_replicate, Nat.reduceAdd]
  refine ⟨?_, inputAccepted_eq_false_of_gt ?_⟩
  · rw [← hblock]
    exact hrun _ (by simp only [Utterance, List.length_replicate]; decide) (List.length_replicate _ _)
  · rw [length_toPcmF32, List.length_replicate]
    decide

end WhisperTranscriber
