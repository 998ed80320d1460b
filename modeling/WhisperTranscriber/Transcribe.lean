import WhisperTranscriber.Pcm16

/-!
# Worker tasks and `TranscribeAudioNonBlocking`

Each block drained by the processing thread becomes a task of the worker pool:
the lambda enqueued by `RunProcessingThread` converts the block to `pcmf32` and
calls `TranscribeAudioNonBlocking`.  A task is a program counter over the atomic
steps of that code: the exchange on `_processingActive`, each validation check,
the `whisper_full` call, and the final reset.

* `taskStep` — one atomic step of a task outside the engine call, with the new
  value of `_processingActive`.
* `cleanTranscription` — `std::regex_replace` with the annotation pattern, as a
  left-to-right scan.
* `forwardTranscription` — what a successful engine call hands to the output
  collaborator.
-/

namespace WhisperTranscriber

/-- Where a worker-pool task is.  `checkContextAgain` is the second null test of
`_whisperContext`, whose failure returns without resetting the guard. -/
inductive TaskPc where
  | queued
  | exchange
  | checkContext
  | checkEmpty
  | checkSize
  | checkSamples
  | checkContextAgain
  | whisperFull
  | release (result : Int)
  | returned (value : Bool)
  | skipped
  deriving DecidableEq, Repr

/-- A task: the block it was given (`localAudioBuffer`), its converted samples,
and where it is. -/
structure Task where
  localAudioBuffer : List UInt8
  pcmf32 : List ℚ
  pc : TaskPc
  deriving DecidableEq, Repr

/-- The positions between winning the exchange and the final reset: the task
holds the single-flight guard there. -/
def TaskPc.holdsGuard : TaskPc → Bool
  | .checkContext | .checkEmpty | .checkSize | .checkSamples | .checkContextAgain
  | .whisperFull | .release _ => true
  | _ => false

/-- The size check of `TranscribeAudioNonBlocking`:
`pcmf32.size() < kSampleRate || pcmf32.size() > kTargetSamples` rejects. -/
def sizeRejected (pcmf32 : List ℚ) : Bool :=
  decide (pcmf32.length < kSampleRate) || decide (pcmf32.length > kTargetSamples)

/-- The sample loop of `TranscribeAudioNonBlocking` rejects a sample with
`!(sample == sample) || std::abs(sample) > 1.0f`; rationals are never NaN. -/
def sampleRejected (sample : ℚ) : Bool := decide (|sample| > 1)

/-- All input checks of `TranscribeAudioNonBlocking` pass. -/
def inputAccepted (pcmf32 : List ℚ) : Bool :=
  !pcmf32.isEmpty && !sizeRejected pcmf32 && !pcmf32.any sampleRejected

theorem inputAccepted_eq_false_of_gt {pcmf32 : List ℚ} (h : kTargetSamples < pcmf32.length) :
    inputAccepted pcmf32 = false := by
  simp [inputAccepted, sizeRejected, h]

/-- One atomic step of a task outside `whisper_full`, reading `_whisperContext`
(non-null or not) and `_processingActive`: the task's next state and the new
value of `_processingActive`.  A failed check stores `false` and returns `false`,
except the second context check. -/
def taskStep (whisperContext processingActive : Bool) (t : Task) : Task × Bool :=
  match t.pc with
  | .queued =>
      if whisperContext ∧ t.localAudioBuffer.length ≠ 0 ∧ t.localAudioBuffer.length % 2 = 0 then
        ({ t with localAudioBuffer := [], pcmf32 := toPcmF32 t.localAudioBuffer, pc := .exchange },
          processingActive)
      else ({ t with pc := .skipped }, processingActive)
  | .exchange =>
      if processingActive then ({ t with pc := .returned false }, true)
      else ({ t with pc := .checkContext }, true)
  | .checkContext =>
      if whisperContext then ({ t with pc := .checkEmpty }, processingActive)
      else ({ t with pc := .returned false }, false)
  | .checkEmpty =>
      if t.pcmf32.isEmpty then ({ t with pc := .returned false }, false)
      else ({ t with pc := .checkSize }, processingActive)
  | .checkSize =>
      if sizeRejected t.pcmf32 then ({ t with pc := .returned false }, false)
      else ({ t with pc := .checkSamples }, processingActive)
  | .checkSamples =>
      if t.pcmf32.any sampleRejected then ({ t with pc := .returned false }, false)
      else ({ t with pc := .checkContextAgain }, processingActive)
  | .checkContextAgain =>
      if whisperContext then ({ t with pc := .whisperFull }, processingActive)
      else ({ t with pc := .returned false }, processingActive)
  | .whisperFull => (t, processingActive)
  | .release result => ({ t with pc := .returned (result == 0) }, false)
  | .returned _ | .skipped => (t, processingActive)

/-! ### The transcription text -/

/-- The output collaborator; `_llaming` selects its entry point. -/
structure SpeechAudioDevice where
  llaming : Bool
  deriving DecidableEq, Repr

/-- A call into the output collaborator. -/
inductive Output where
  | askLlama (text : String)
  | speakText (text : String)
  deriving DecidableEq, Repr

/-- The segment loop: each non-null, non-empty segment text followed by a space. -/
def fullTranscription : List (Option String) → String
  | [] => ""
  | none :: texts => fullTranscription texts
  | some text :: texts =>
      (if text.length > 0 then text ++ " " else "") ++ fullTranscription texts

/-- The characters ECMAScript's `.` does not match. -/
def isLineTerminator (c : Char) : Bool := c == '\n' || c == '\r'

/-- The closing character of an annotation opened by `c`. -/
def annotationClose : Char → Option Char
  | '[' => some ']'
  | '(' => some ')'
  | '{' => some '}'
  | _ => none

/-- The lazy `.*?` then the closing character: the text after the first `close`,
if no line terminator comes before it. -/
def skipToClose (close : Char) : List Char → Option (List Char)
  | [] => none
  | c :: cs => if c = close then some cs else if isLineTerminator c then none else skipToClose close cs

theorem length_skipToClose_lt {close : Char} :
    ∀ {cs rest : List Char}, skipToClose close cs = some rest → rest.length < cs.length + 1
  | [], _, h => by simp [skipToClose] at h
  | c :: cs, rest, h => by
      unfold skipToClose at h
      split at h
      · cases h; simp only [List.length_cons]; omega
      · split at h
        · cases h
        · have := length_skipToClose_lt h
          simp only [List.length_cons]
          omega

/-- `std::regex_replace(s, std::regex("\\[.*?\\]|\\(.*?\\)|\\{.*?\\}"), "")`: the
leftmost match is removed and the search resumes after it. -/
def stripAnnotations : List Char → List Char
  | [] => []
  | c :: cs =>
      match annotationClose c with
      | none => c :: stripAnnotations cs
      | some close =>
          match h : skipToClose close cs with
          | none => c :: stripAnnotations cs
          | some rest =>
              have := length_skipToClose_lt h
              stripAnnotations rest
termination_by l => l.length

/-- The cleaned transcription. -/
def cleanTranscription (s : String) : String := String.mk (stripAnnotations s.toList)

/-- After a successful engine call: the call into the output collaborator, if the
cleaned text is non-empty and a device is attached. -/
def forwardTranscription (speechAudioDevice : Option SpeechAudioDevice)
    (texts : List (Option String)) : Option Output :=
  let full := fullTranscription texts
  if full.isEmpty then none
  else
    let clean := cleanTranscription full
    match speechAudioDevice with
    | some device =>
        if clean.isEmpty then none
        else if device.llaming then some (.askLlama clean) else some (.speakText clean)
    | none => none

end WhisperTranscriber
