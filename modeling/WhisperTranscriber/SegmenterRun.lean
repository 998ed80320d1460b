import WhisperTranscriber.Segmenter

/-!
# Runs of `ProcessAudioBuffer`

A run is a list of calls, each with its block and the average amplitude
`SilenceFinder` reports for it.  The invariants below are proved once per call in
`Segmenter` and lifted here by induction over the run.

* `run_written_append_accumulated` — every byte of every voiced block reaches
  `_audioBuffer.write` or the accumulator, in call order, exactly once.
* `run_accumulated_even_written_bounded` — the accumulator stays even, every
  written range holds one to twelve seconds, and blocks of at most
  `kTargetSamples` bytes keep the accumulator below `kTargetSamples`.
* `inSegment_appends_iff_positive` — inside a segment a call accumulates its block
  iff its amplitude is positive; quiet blocks of the debounce window are dropped.
* `endSegment_keeps_past_target` — the call that ends a segment of at least one
  second writes `min(size, kTargetSamples)` bytes and keeps what lies past
  `kTargetSamples`; a shorter segment stays in the accumulator.
* `silence_of_half_second_ends_segment` — `kSilenceSamples` is compared with a
  count of bytes, so half a second of silence ends a segment.
* `run_segment_state_bounds` — between calls, a segment's silence count is below
  `kSilenceSamples`, and outside a segment less than one second of audio waits
  in the accumulator.
-/

namespace WhisperTranscriber

/-- One call of `ProcessAudioBuffer`: its block, and the average amplitude
`SilenceFinder` computes for that block. -/
structure Call where
  playoutBuffer : List UInt8
  avgAmplitude : ℚ

namespace Segmenter

/-- A run of calls: the final state and every range handed to
`_audioBuffer.write`, in call order. -/
def run : Segmenter → List Call → Segmenter × List (List UInt8)
  | s, [] => (s, [])
  | s, c :: cs =>
      let r := s.processAudioBuffer c.playoutBuffer c.avgAmplitude
      ((r.1.run cs).1, r.2.toList ++ (r.1.run cs).2)

/-- The blocks of a run that their own call classified as voice, in call order. -/
def voicedBlocks : Segmenter → List Call → List (List UInt8)
  | _, [] => []
  | s, c :: cs =>
      (if voicePresent s.inVoiceSegment c.avgAmplitude then [c.playoutBuffer] else []) ++
        (s.processAudioBuffer c.playoutBuffer c.avgAmplitude).1.voicedBlocks cs

/-- The byte equation of one call, lifted to a run from any state. -/
theorem run_bytes (s : Segmenter) (calls : List Call)
    (heven : ∀ c ∈ calls, Even c.playoutBuffer.length) :
    (s.run calls).2.flatten ++ (s.run calls).1.accumulatedByteBuffer =
      s.accumulatedByteBuffer ++ (s.voicedBlocks calls).flatten := by
  induction calls generalizing s with
  | nil => simp [run, voicedBlocks]
  | cons c cs ih =>
      have hc := processAudioBuffer_bytes s c.playoutBuffer c.avgAmplitude
      rw [pcm16Encode_pcm16Decode (heven c (List.mem_cons_self c cs))] at hc
      have hrest := ih (s.processAudioBuffer c.playoutBuffer c.avgAmplitude).1
        fun c' hc' => heven c' (List.mem_cons_of_mem c hc')
      simp only [run, voicedBlocks, List.flatten_append, List.append_assoc] at hrest ⊢
      rw [hrest, ← List.append_assoc, hc]
      split <;> simp

/-- **No byte is dropped, duplicated or reordered**: from an empty accumulator,
the ranges handed to `_audioBuffer.write` followed by the accumulator are the
voiced blocks of the run, concatenated in call order. -/
theorem run_written_append_accumulated (s : Segmenter) (calls : List Call)
    (hs : s.accumulatedByteBuffer = []) (heven : ∀ c ∈ calls, Even c.playoutBuffer.length) :
    (s.run calls).2.flatten ++ (s.run calls).1.accumulatedByteBuffer =
      (s.voicedBlocks calls).flatten := by
  rw [run_bytes s calls heven, hs, List.nil_append]

theorem run_written_append_accumulated_init :
    let calls := [Call.mk [1, 2] 1, Call.mk [3, 4] 0, Call.mk [5, 6] 1]
    init.accumulatedByteBuffer = [] ∧ (∀ c ∈ calls, Even c.playoutBuffer.length) ∧
      (init.run calls).2.flatten ++ (init.run calls).1.accumulatedByteBuffer =
        (init.voicedBlocks calls).flatten :=
  ⟨rfl, by decide, run_written_append_accumulated init _ rfl (by decide)⟩

/-- Evenness of the accumulator, lifted to a run. -/
theorem even_run (s : Segmenter) (calls : List Call) (h : Even s.accumulatedByteBuffer.length) :
    Even (s.run calls).1.accumulatedByteBuffer.length := by
  induction calls generalizing s with
  | nil => exact h
  | cons c cs ih => exact ih _ (even_processAudioBuffer s _ _ h)

/-- Every written range of a run from an even accumulator is one to twelve
seconds of audio. -/
theorem run_written_bounded (s : Segmenter) (calls : List Call)
    (h : Even s.accumulatedByteBuffer.length) :
    ∀ w ∈ (s.run calls).2,
      Even w.length ∧ 2 * kSampleRate ≤ w.length ∧ w.length ≤ kTargetSamples := by
  induction calls generalizing s with
  | nil => simp [run]
  | cons c cs ih =>
      intro w hw
      simp only [run, List.mem_append, Option.mem_toList] at hw
      rcases hw with hw | hw
      · exact processAudioBuffer_written s _ _ h w hw
      · exact ih _ (even_processAudioBuffer s _ _ h) w hw

/-- The accumulator bound, lifted to a run of blocks of at most `kTargetSamples`
bytes. -/
theorem run_accumulated_lt (s : Segmenter) (calls : List Call)
    (h : s.accumulatedByteBuffer.length < kTargetSamples)
    (hb : ∀ c ∈ calls, c.playoutBuffer.length ≤ kTargetSamples) :
    (s.run calls).1.accumulatedByteBuffer.length < kTargetSamples := by
  induction calls generalizing s with
  | nil => exact h
  | cons c cs ih =>
      exact ih _ (length_processAudioBuffer_lt s _ _ h (hb c (List.mem_cons_self c cs)))
        fun c' hc' => hb c' (List.mem_cons_of_mem c hc')

/-! ### Between calls -/

/-- The segmentation state between calls, for blocks of at most `kTargetSamples`
bytes: the accumulator holds less than `kTargetSamples` bytes; inside a segment
the silence count has not reached `kSilenceSamples`; outside a segment the
accumulator holds less than one second of audio. -/
structure Settled (s : Segmenter) : Prop where
  acc_lt : s.accumulatedByteBuffer.length < kTargetSamples
  silent_lt : s.inVoiceSegment = true → s.silentSamplesCount < kSilenceSamples
  carry_lt : s.inVoiceSegment = false → s.accumulatedByteBuffer.length < 2 * kSampleRate

/-- One call keeps the state settled.  A segment ends on the call whose silence
reaches `kSilenceSamples`; the flush at its end writes everything once at least
one second accumulated, since the accumulator is below `kTargetSamples`. -/
theorem settled_processAudioBuffer {s : Segmenter} (playoutBuffer : List UInt8) (avgAmplitude : ℚ)
    (h : Settled s) (hb : playoutBuffer.length ≤ kTargetSamples) :
    Settled (s.processAudioBuffer playoutBuffer avgAmplitude).1 := by
  refine ⟨length_processAudioBuffer_lt s playoutBuffer avgAmplitude h.acc_lt hb, ?_, ?_⟩
  · rw [inVoiceSegment_processAudioBuffer, silentSamplesCount_processAudioBuffer]
    split_ifs with hv he
    · exact fun _ => by decide
    · exact nofun
    · simpa using he
  · rw [inVoiceSegment_processAudioBuffer, accumulatedByteBuffer_processAudioBuffer]
    have hacc := h.acc_lt
    split_ifs with hv _ he hflush
    · exact nofun
    · exact nofun
    · have hk : 0 < kSampleRate := by decide
      intro _
      rw [List.length_drop]
      omega
    · intro _
      omega
    · exact h.carry_lt

theorem settled_run (s : Segmenter) (calls : List Call) (h : Settled s)
    (hb : ∀ c ∈ calls, c.playoutBuffer.length ≤ kTargetSamples) : Settled (s.run calls).1 := by
  induction calls generalizing s with
  | nil => exact h
  | cons c cs ih =>
      exact ih _ (settled_processAudioBuffer _ _ h (hb c (List.mem_cons_self c cs)))
        fun c' hc' => hb c' (List.mem_cons_of_mem c hc')

/-- **Segment state over a run.**  After every run from construction with blocks
of at most `kTargetSamples` bytes: inside a segment the silence count is below
`kSilenceSamples`, so a segment ends on the very call whose silence reaches it;
outside a segment the accumulator holds less than one second of audio, so at most
that much audio of an earlier, too short segment is carried into the next one. -/
theorem run_segment_state_bounds (calls : List Call)
    (hb : ∀ c ∈ calls, c.playoutBuffer.length ≤ kTargetSamples) :
    ((init.run calls).1.inVoiceSegment = true →
        (init.run calls).1.silentSamplesCount < kSilenceSamples) ∧
      ((init.run calls).1.inVoiceSegment = false →
        (init.run calls).1.accumulatedByteBuffer.length < 2 * kSampleRate) := by
  have h := settled_run init calls ⟨by decide, nofun, fun _ => by decide⟩ hb
  exact ⟨h.silent_lt, h.carry_lt⟩

theorem run_segment_state_bounds_short_utterance :
    let calls := [Call.mk [0, 0] 1, Call.mk [1, 0] 1, Call.mk [0, 0] 0]
    (∀ c ∈ calls, c.playoutBuffer.length ≤ kTargetSamples) ∧
      ((init.run calls).1.inVoiceSegment = true →
          (init.run calls).1.silentSamplesCount < kSilenceSamples) ∧
        ((init.run calls).1.inVoiceSegment = false →
          (init.run calls).1.accumulatedByteBuffer.length < 2 * kSampleRate) :=
  ⟨by simp [kTargetSamples, kSampleRate], run_segment_state_bounds _ (by simp [kTargetSamples, kSampleRate])⟩

/-- **Sizes over a run**: from an empty accumulator, the accumulator always has
even length, every range handed to `_audioBuffer.write` is an even number of
bytes between `2 * kSampleRate` and `kTargetSamples`, and when no block exceeds
`kTargetSamples` bytes the accumulator stays below `kTargetSamples`. -/
theorem run_accumulated_even_written_bounded (s : Segmenter) (calls : List Call)
    (hs : s.accumulatedByteBuffer = []) :
    Even (s.run calls).1.accumulatedByteBuffer.length ∧
      (∀ w ∈ (s.run calls).2,
        Even w.length ∧ 2 * kSampleRate ≤ w.length ∧ w.length ≤ kTargetSamples) ∧
      ((∀ c ∈ calls, c.playoutBuffer.length ≤ kTargetSamples) →
        (s.run calls).1.accumulatedByteBuffer.length < kTargetSamples) := by
  have h0 : Even s.accumulatedByteBuffer.length := by simp [hs]
  exact ⟨even_run s calls h0, run_written_bounded s calls h0,
    run_accumulated_lt s calls (by simp [hs, kTargetSamples, kSampleRate])⟩

theorem run_accumulated_even_written_bounded_init :
    let calls := [Call.mk [1, 2] 1, Call.mk [3, 4] 0]
    init.accumulatedByteBuffer = [] ∧ (∀ c ∈ calls, c.playoutBuffer.length ≤ kTargetSamples) ∧
      (init.run calls).1.accumulatedByteBuffer.length < kTargetSamples :=
  ⟨rfl, by simp [kTargetSamples, kSampleRate],
    (run_accumulated_even_written_bounded init _ rfl).2.2 (by simp [kTargetSamples, kSampleRate])⟩

/-! ### Inside a segment -/

/-- A call after which a segment is open accumulates its block whole (counting
any continuous-speech flush) if its amplitude is positive, and otherwise writes
nothing and leaves the accumulator as it was: inside a segment, the quiet blocks
of the debounce window are not accumulated. -/
theorem inSegment_appends_iff_positive (s : Segmenter) (playoutBuffer : List UInt8)
    (avgAmplitude : ℚ) (heven : Even playoutBuffer.length)
    (hstay : (s.processAudioBuffer playoutBuffer avgAmplitude).1.inVoiceSegment = true) :
    ((s.processAudioBuffer playoutBuffer avgAmplitude).2 = none ∨ 0 < avgAmplitude) ∧
      (s.processAudioBuffer playoutBuffer avgAmplitude).2.toList.flatten ++
          (s.processAudioBuffer playoutBuffer avgAmplitude).1.accumulatedByteBuffer =
        s.accumulatedByteBuffer ++ if 0 < avgAmplitude then playoutBuffer else [] := by
  have hbytes := processAudioBuffer_bytes s playoutBuffer avgAmplitude
  rw [voicePresent_eq, pcm16Encode_pcm16Decode heven] at hbytes
  refine ⟨?_, by simpa using hbytes⟩
  by_cases ha : 0 < avgAmplitude
  · exact .inr ha
  · have hv : voicePresent s.inVoiceSegment avgAmplitude = false := by simp [voicePresent_eq, ha]
    rw [inVoiceSegment_processAudioBuffer, hv, if_neg Bool.false_ne_true] at hstay
    rw [processAudioBuffer_of_not_voice hv, onSilence_of_not_end]
    · exact .inl rfl
    · intro he
      rw [if_pos he] at hstay
      exact Bool.false_ne_true hstay

theorem inSegment_appends_iff_positive_voiced :
    let s : Segmenter := ⟨true, 2, 0, [0, 0]⟩
    Even [1, 1].length ∧ (s.processAudioBuffer [1, 1] 1).1.inVoiceSegment = true ∧
      (((s.processAudioBuffer [1, 1] 1).2 = none ∨ (0 : ℚ) < 1) ∧
        (s.processAudioBuffer [1, 1] 1).2.toList.flatten ++
            (s.processAudioBuffer [1, 1] 1).1.accumulatedByteBuffer =
          s.accumulatedByteBuffer ++ if (0 : ℚ) < 1 then [1, 1] else []) :=
  have hstay : (Segmenter.processAudioBuffer ⟨true, 2, 0, [0, 0]⟩ [1, 1] 1).1.inVoiceSegment = true := by
    simp [inVoiceSegment_processAudioBuffer, voicePresent_eq]
  ⟨by decide, hstay, inSegment_appends_iff_positive _ _ _ (by decide) hstay⟩

/-- A quiet block inside a segment is not appended: after one voiced block, a
block of amplitude zero leaves the segment open and the accumulator as it was. -/
theorem quiet_block_in_segment_dropped :
    let s := (init.processAudioBuffer [0, 0] 1).1
    let r := s.processAudioBuffer [1, 1] 0
    s.inVoiceSegment = true ∧ r.1.inVoiceSegment = true ∧ r.2 = none ∧
      r.1.accumulatedByteBuffer = [0, 0] := by
  have hs : (init.processAudioBuffer [0, 0] 1).1 = ⟨true, 2, 0, [0, 0]⟩ := by
    simp [processAudioBuffer, voicePresent_eq, onVoice, init, pcm16Decode, pcm16Encode,
      kTargetSamples, kSampleRate]
  simp only [hs]
  simp [processAudioBuffer, voicePresent, onSilence, pcm16Decode, pcm16Encode, kSilenceSamples]

/-! ### End of a segment -/

/-- A call that ends a segment writes the first `min(size, kTargetSamples)`
accumulated bytes and keeps exactly those past the first `kTargetSamples` when the
segment holds at least one second of audio; a shorter segment is neither written
nor cleared, and its bytes stay in the accumulator. -/
theorem endSegment_keeps_past_target (s : Segmenter) (playoutBuffer : List UInt8)
    (avgAmplitude : ℚ) (hin : s.inVoiceSegment = true)
    (hout : (s.processAudioBuffer playoutBuffer avgAmplitude).1.inVoiceSegment = false) :
    (s.processAudioBuffer playoutBuffer avgAmplitude).2 =
        (if kSampleRate * 2 ≤ s.accumulatedByteBuffer.length then
          some (s.accumulatedByteBuffer.take (min s.accumulatedByteBuffer.length kTargetSamples))
        else none) ∧
      (s.processAudioBuffer playoutBuffer avgAmplitude).1.accumulatedByteBuffer =
        if kSampleRate * 2 ≤ s.accumulatedByteBuffer.length then
          s.accumulatedByteBuffer.drop kTargetSamples
        else s.accumulatedByteBuffer := by
  rw [inVoiceSegment_processAudioBuffer] at hout
  cases hv : voicePresent s.inVoiceSegment avgAmplitude
  · rw [hv, if_neg Bool.false_ne_true] at hout
    have he : s.inVoiceSegment = true ∧ kSilenceSamples ≤
        s.silentSamplesCount + (pcm16Encode (pcm16Decode playoutBuffer)).length := by
      by_contra he
      rw [if_neg he, hin] at hout
      exact Bool.noConfusion hout
    rw [processAudioBuffer_of_not_voice hv, onSilence_of_end _ _ he, endSegment_written,
      endSegment_accumulatedByteBuffer]
    exact ⟨rfl, rfl⟩
  · simp [hv] at hout

theorem endSegment_keeps_past_target_one_second :
    let s : Segmenter := ⟨true, 0, 0, List.replicate 32000 0⟩
    s.inVoiceSegment = true ∧
      (s.processAudioBuffer (List.replicate 16000 0) 0).1.inVoiceSegment = false ∧
      ((s.processAudioBuffer (List.replicate 16000 0) 0).2 =
          (if kSampleRate * 2 ≤ s.accumulatedByteBuffer.length then
            some (s.accumulatedByteBuffer.take (min s.accumulatedByteBuffer.length kTargetSamples))
          else none) ∧
        (s.processAudioBuffer (List.replicate 16000 0) 0).1.accumulatedByteBuffer =
          if kSampleRate * 2 ≤ s.accumulatedByteBuffer.length then
            s.accumulatedByteBuffer.drop kTargetSamples
          else s.accumulatedByteBuffer) :=
  have he : Even (List.replicate 16000 (0 : UInt8)).length := by
    rw [List.length_replicate]; decide
  have hout : (Segmenter.processAudioBuffer ⟨true, 0, 0, List.replicate 32000 0⟩
      (List.replicate 16000 0) 0).1.inVoiceSegment = false := by
    rw [inVoiceSegment_processAudioBuffer, pcm16Encode_pcm16Decode he, List.length_replicate]
    simp [voicePresent, kSilenceSamples]
  ⟨rfl, hout, endSegment_keeps_past_target _ _ _ rfl hout⟩

/-- A segment longer than `kTargetSamples` is not emptied by its end: one block
of 800000 bytes, then half a second of silence, leaves 32000 bytes behind. -/
theorem long_segment_end_keeps_remainder :
    let s₁ := (init.processAudioBuffer (List.replicate 800000 0) 1).1
    let s₂ := (s₁.processAudioBuffer (List.replicate 16000 0) 0).1
    s₁.inVoiceSegment = true ∧ s₂.inVoiceSegment = false ∧
      s₂.accumulatedByteBuffer.length = 32000 := by
  have he₁ : Even (List.replicate 800000 (0 : UInt8)).length := by
    rw [List.length_replicate]; decide
  have he₂ : Even (List.replicate 16000 (0 : UInt8)).length := by
    rw [List.length_replicate]; decide
  have hv₁ : voicePresent init.inVoiceSegment 1 = true := by simp [voicePresent_eq]
  have hflush₁ : kTargetSamples ≤ init.accumulatedByteBuffer.length +
      (pcm16Encode (pcm16Decode (List.replicate 800000 (0 : UInt8)))).length := by
    rw [pcm16Encode_pcm16Decode he₁, List.length_replicate]; decide
  have hacc : (init.processAudioBuffer (List.replicate 800000 0) 1).1.accumulatedByteBuffer.length =
      416000 := by
    rw [accumulatedByteBuffer_processAudioBuffer, if_pos hv₁, if_pos hflush₁, List.length_drop,
      List.length_append, pcm16Encode_pcm16Decode he₁, List.length_replicate]
    rfl
  have hend : ∀ s : Segmenter, s.inVoiceSegment = true → s.silentSamplesCount = 0 →
      s.accumulatedByteBuffer.length = 416000 →
      (s.processAudioBuffer (List.replicate 16000 0) 0).1.inVoiceSegment = false ∧
        (s.processAudioBuffer (List.replicate 16000 0) 0).1.accumulatedByteBuffer.length = 32000 := by
    intro s hin hsilent hlen
    have hv : voicePresent s.inVoiceSegment 0 = false := by simp [voicePresent]
    have he : s.inVoiceSegment = true ∧ kSilenceSamples ≤
        s.silentSamplesCount + (pcm16Encode (pcm16Decode (List.replicate 16000 (0 : UInt8)))).length := by
      rw [hin, hsilent, pcm16Encode_pcm16Decode he₂, List.length_replicate]; decide
    have hflush : kSampleRate * 2 ≤ s.accumulatedByteBuffer.length := by rw [hlen]; decide
    rw [inVoiceSegment_processAudioBuffer, accumulatedByteBuffer_processAudioBuffer, hv,
      if_neg Bool.false_ne_true, if_neg Bool.false_ne_true, if_pos he, if_pos he, if_pos hflush,
      List.length_drop, hlen]
    exact ⟨rfl, rfl⟩
  exact ⟨by rw [inVoiceSegment_processAudioBuffer, if_pos hv₁],
    hend _ (by rw [inVoiceSegment_processAudioBuffer, if_pos hv₁])
      (by rw [silentSamplesCount_processAudioBuffer, if_pos hv₁]) hacc⟩

/-! ### The silence count -/

/-- A voiced block of one sample opens a segment holding it. -/
theorem processAudioBuffer_init_voiced :
    (init.processAudioBuffer [0, 0] 1).1 = ⟨true, 2, 0, [0, 0]⟩ := by
  simp [processAudioBuffer, voicePresent_eq, onVoice, init, pcm16Decode, pcm16Encode,
    kTargetSamples, kSampleRate]

/-- Half a second of silence ends a segment: the silence count adds bytes, and
`kSilenceSamples` bytes are 8000 samples, fewer than the `kSampleRate` samples of
one second. -/
theorem silence_of_half_second_ends_segment :
    (init.processAudioBuffer [0, 0] 1).1.inVoiceSegment = true ∧
      (List.replicate 16000 (0 : UInt8)).length < 2 * kSampleRate ∧
      ((init.processAudioBuffer [0, 0] 1).1.processAudioBuffer (List.replicate 16000 0)
        0).1.inVoiceSegment = false := by
  have he : Even (List.replicate 16000 (0 : UInt8)).length := by
    rw [List.length_replicate]; decide
  simp only [processAudioBuffer_init_voiced]
  rw [inVoiceSegment_processAudioBuffer, pcm16Encode_pcm16Decode he, List.length_replicate]
  simp [voicePresent, kSilenceSamples, kSampleRate]

/-- A block of average amplitude `0` is silence in both states: it never opens a
segment, and it closes an open one exactly when the silence count, with the
block's bytes, reaches `kSilenceSamples`. -/
theorem zero_amplitude_inVoiceSegment (s : Segmenter) (playoutBuffer : List UInt8) :
    (s.processAudioBuffer playoutBuffer 0).1.inVoiceSegment =
      (s.inVoiceSegment &&
        !decide (kSilenceSamples ≤ s.silentSamplesCount + 2 * ((playoutBuffer.length + 1) / 2))) := by
  rw [inVoiceSegment_processAudioBuffer, length_pcm16Encode_pcm16Decode]
  cases s.inVoiceSegment <;> simp [voicePresent_eq]

/-- Two quarter-second blocks of amplitude `0` after a voiced block: the first
leaves the segment open, the second closes it. -/
theorem second_quiet_block_ends_segment :
    ((init.processAudioBuffer [0, 0] 1).1.processAudioBuffer (List.replicate 8000 0)
        0).1.inVoiceSegment = true ∧
      (((init.processAudioBuffer [0, 0] 1).1.processAudioBuffer (List.replicate 8000 0)
        0).1.processAudioBuffer (List.replicate 8000 0) 0).1.inVoiceSegment = false := by
  have hlen : (pcm16Encode (pcm16Decode (List.replicate 8000 (0 : UInt8)))).length = 8000 := by
    rw [length_pcm16Encode_pcm16Decode, List.length_replicate]
  have hv : ∀ b, voicePresent b 0 = false := by simp [voicePresent_eq]
  simp only [processAudioBuffer_init_voiced]
  rw [inVoiceSegment_processAudioBuffer, inVoiceSegment_processAudioBuffer,
    silentSamplesCount_processAudioBuffer, inVoiceSegment_processAudioBuffer, hlen]
  simp [hv, kSilenceSamples]

end Segmenter

end WhisperTranscriber
