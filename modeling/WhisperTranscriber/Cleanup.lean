import Mathlib.Data.String.Basic
import WhisperTranscriber.Transcribe

/-!
# The annotation cleanup and what it forwards

`stripAnnotations` is `std::regex_replace` with the pattern
`\[.*?\]|\(.*?\)|\{.*?\}`: at each position the lazy `.*?` runs to the first
closing character, unless a line terminator comes first, and the search resumes
after the match.  A match never spans a line terminator, so the characters before
the first line terminator only lose characters under the cleanup, and a position
that starts no match in the text starts none in the cleaned text: the cleaned text
has no match left, and the cleanup is idempotent.

A match ends with a closing character, so the space that follows every segment
text survives the cleanup: the emptiness test before forwarding never rejects a
transcription with a non-empty segment, whatever annotations it holds.

* `untilLineEnd_stripAnnotations_sublist` — the characters before the first line
  terminator only lose characters.
* `noMatch_stripAnnotations` — no position of the cleaned text starts a match.
* `stripAnnotations_of_noMatch` — the cleanup leaves a text with no match alone.
* `stripAnnotations_no_pair_idem` — no opener is followed by its closer on the
  same line in the cleaned text, and cleaning twice is cleaning once.
* `stripAnnotations_append_lineTerminator` — the cleanup keeps every line
  terminator and cleans each line on its own.
* `cleanTranscription_isEmpty` — the cleanup never empties the segment loop's
  text.
* `forwardTranscription_isSome_iff` — the collaborator is called iff a device is
  attached and some segment text is non-empty.
* `forwarded_text_sublist` — every forwarded text is the segment loop's text with
  some characters deleted, in order.
* `blank_audio_forwarded` — a result made of one `[BLANK_AUDIO]` segment is
  forwarded as a single space.
-/

namespace WhisperTranscriber

/-! ### The lazy match -/

/-- The characters before the first line terminator: how far `.*?` can reach. -/
def untilLineEnd : List Char → List Char
  | [] => []
  | c :: cs => if isLineTerminator c then [] else c :: untilLineEnd cs

/-- Whether a match of the pattern starts at `c`, followed by `cs`. -/
def matchesAt (c : Char) (cs : List Char) : Bool :=
  match annotationClose c with
  | none => false
  | some close => (skipToClose close cs).isSome

/-- Whether no position of the text starts a match. -/
def noMatch : List Char → Bool
  | [] => true
  | c :: cs => !matchesAt c cs && noMatch cs

/-- The three annotation pairs of the pattern, and no other. -/
theorem annotationClose_eq_some_iff {c close : Char} :
    annotationClose c = some close ↔ (c, close) ∈ [('[', ']'), ('(', ')'), ('{', '}')] := by
  unfold annotationClose
  split <;> simp_all [eq_comm]

/-- Neither character of an annotation pair is a line terminator, and no closer is
a space. -/
theorem annotationClose_chars {c close : Char} (h : annotationClose c = some close) :
    isLineTerminator c = false ∧ isLineTerminator close = false ∧ close ≠ ' ' := by
  have hp := annotationClose_eq_some_iff.mp h
  simp only [List.mem_cons, Prod.mk.injEq, List.not_mem_nil, or_false] at hp
  rcases hp with ⟨rfl, rfl⟩ | ⟨rfl, rfl⟩ | ⟨rfl, rfl⟩ <;> decide

/-- The lazy match fails iff the closing character is not among the characters
before the first line terminator. -/
theorem skipToClose_eq_none_iff {close : Char} (h : isLineTerminator close = false) :
    ∀ cs : List Char, skipToClose close cs = none ↔ close ∉ untilLineEnd cs
  | [] => by simp [skipToClose, untilLineEnd]
  | c :: cs => by
      by_cases hc : c = close
      · subst hc; simp [skipToClose, untilLineEnd, h]
      · cases hl : isLineTerminator c <;>
          simp [skipToClose, untilLineEnd, hc, hl, Ne.symm hc, skipToClose_eq_none_iff h cs]

/-- What the lazy match skips reaches no further than the first line terminator. -/
theorem untilLineEnd_sublist_of_skipToClose {close : Char} (h : isLineTerminator close = false) :
    ∀ {cs rest : List Char}, skipToClose close cs = some rest →
      (untilLineEnd rest).Sublist (untilLineEnd cs)
  | [], _, hs => by simp [skipToClose] at hs
  | c :: cs, rest, hs => by
      unfold skipToClose at hs
      split at hs
      · cases hs
        subst c
        simp [untilLineEnd, h]
      · split at hs
        · cases hs
        · rename_i hl
          simp only [untilLineEnd, hl, if_false]
          exact (untilLineEnd_sublist_of_skipToClose h hs).cons c

/-- A closing character after an opener, with no line terminator between, is
found by the lazy match. -/
theorem skipToClose_isSome {close : Char} (post : List Char) :
    ∀ mid : List Char, (∀ c ∈ mid, isLineTerminator c = false) →
      (skipToClose close (mid ++ close :: post)).isSome
  | [], _ => by simp [skipToClose]
  | c :: mid, hmid => by
      have hc := hmid c (List.mem_cons_self c mid)
      by_cases h : c = close
      · simp [skipToClose, h]
      · simpa [skipToClose, h, hc] using
          skipToClose_isSome post mid fun c' hc' => hmid c' (List.mem_cons_of_mem c hc')

/-- What the lazy match skips: everything up to and including the first closing
character. -/
theorem skipToClose_eq_some {close : Char} :
    ∀ {cs rest : List Char}, skipToClose close cs = some rest → ∃ mid, cs = mid ++ close :: rest
  | [], _, hs => by simp [skipToClose] at hs
  | c :: cs, rest, hs => by
      unfold skipToClose at hs
      split at hs
      · cases hs; exact ⟨[], by simp_all⟩
      · split at hs
        · cases hs
        · obtain ⟨mid, rfl⟩ := skipToClose_eq_some hs
          exact ⟨c :: mid, rfl⟩

/-! ### One step of the cleanup -/

theorem stripAnnotations_cons_of_matchesAt_eq_false {c : Char} {cs : List Char}
    (h : matchesAt c cs = false) : stripAnnotations (c :: cs) = c :: stripAnnotations cs := by
  unfold matchesAt at h
  rw [stripAnnotations]
  split
  · rfl
  · rename_i close hc
    rw [hc] at h
    split <;> simp_all

theorem stripAnnotations_cons_of_skipToClose {c close : Char} {cs rest : List Char}
    (hc : annotationClose c = some close) (hs : skipToClose close cs = some rest) :
    stripAnnotations (c :: cs) = stripAnnotations rest := by
  rw [stripAnnotations]
  simp only [hc]
  split <;> simp_all

/-- Induction along the cleanup: a character that starts no match is kept, and a
match is skipped. -/
@[elab_as_elim]
theorem stripAnnotations_induction {motive : List Char → Prop} (nil : motive [])
    (keep : ∀ c cs, matchesAt c cs = false → motive cs → motive (c :: cs))
    (skip : ∀ c close cs rest, annotationClose c = some close → skipToClose close cs = some rest →
      motive rest → motive (c :: cs)) (l : List Char) : motive l := by
  induction l using stripAnnotations.induct with
  | case1 => exact nil
  | case2 c cs hc ih => exact keep c cs (by simp [matchesAt, hc]) ih
  | case3 c cs close hc hs ih => exact keep c cs (by simp [matchesAt, hc, hs]) ih
  | case4 c cs close hc rest hs _ ih => exact skip c close cs rest hc hs ih

/-! ### The cleaned text has no match left -/

/-- The characters before the first line terminator only lose characters: a
removed span lies within one line. -/
theorem untilLineEnd_stripAnnotations_sublist (l : List Char) :
    (untilLineEnd (stripAnnotations l)).Sublist (untilLineEnd l) := by
  induction l using stripAnnotations_induction with
  | nil => simp [stripAnnotations]
  | keep c cs h ih =>
      rw [stripAnnotations_cons_of_matchesAt_eq_false h]
      simp only [untilLineEnd]
      split
      · exact .slnil
      · exact ih.cons₂ c
  | skip c close cs rest hc hs ih =>
      obtain ⟨hlc, hlclose, -⟩ := annotationClose_chars hc
      rw [stripAnnotations_cons_of_skipToClose hc hs]
      simp only [untilLineEnd, hlc, if_false]
      exact (ih.trans (untilLineEnd_sublist_of_skipToClose hlclose hs)).cons c

/-- A position that starts no match keeps starting none once the text after it
is cleaned. -/
theorem matchesAt_stripAnnotations {c : Char} {cs : List Char} (h : matchesAt c cs = false) :
    matchesAt c (stripAnnotations cs) = false := by
  cases hc : annotationClose c with
  | none => simp [matchesAt, hc]
  | some close =>
      have hlclose := (annotationClose_chars hc).2.1
      have hs : close ∉ untilLineEnd cs := by
        rw [← skipToClose_eq_none_iff hlclose]
        simpa [matchesAt, hc] using h
      have hs' : skipToClose close (stripAnnotations cs) = none :=
        (skipToClose_eq_none_iff hlclose _).mpr
          fun hm => hs ((untilLineEnd_stripAnnotations_sublist cs).subset hm)
      simp [matchesAt, hc, hs']

/-- **No match survives**: no position of the cleaned text starts a match. -/
theorem noMatch_stripAnnotations (l : List Char) : noMatch (stripAnnotations l) = true := by
  induction l using stripAnnotations_induction with
  | nil => simp [stripAnnotations, noMatch]
  | keep c cs h ih =>
      rw [stripAnnotations_cons_of_matchesAt_eq_false h]
      simp [noMatch, matchesAt_stripAnnotations h, ih]
  | skip c close cs rest hc hs ih => rwa [stripAnnotations_cons_of_skipToClose hc hs]

/-- The cleanup leaves a text with no match as it is. -/
theorem stripAnnotations_of_noMatch {l : List Char} (h : noMatch l = true) :
    stripAnnotations l = l := by
  induction l using stripAnnotations_induction with
  | nil => simp [stripAnnotations]
  | keep c cs _ ih =>
      simp only [noMatch, Bool.and_eq_true, Bool.not_eq_true'] at h
      rw [stripAnnotations_cons_of_matchesAt_eq_false h.1, ih h.2]
  | skip c close cs rest hc hs _ => simp [noMatch, matchesAt, hc, hs] at h

/-- In a text with no match, no opener is followed on the same line by its
closer. -/
theorem noMatch_append_cons {o close : Char} {mid post : List Char}
    (hc : annotationClose o = some close) (hmid : ∀ c ∈ mid, isLineTerminator c = false) :
    ∀ pre : List Char, noMatch (pre ++ o :: (mid ++ close :: post)) = false
  | [] => by simp [noMatch, matchesAt, hc, skipToClose_isSome post mid hmid]
  | c :: pre => by simp [noMatch, noMatch_append_cons hc hmid pre]

/-- **The cleanup** (C++ `std::regex_replace` with `\[.*?\]|\(.*?\)|\{.*?\}`):
the cleaned text holds no opener followed by its closer without a line terminator
between them, and cleaning it again changes nothing. -/
theorem stripAnnotations_no_pair_idem (s : List Char) :
    (∀ o close : Char, (o, close) ∈ [('[', ']'), ('(', ')'), ('{', '}')] →
      ∀ pre mid post : List Char, (∀ c ∈ mid, isLineTerminator c = false) →
        stripAnnotations s ≠ pre ++ o :: (mid ++ close :: post)) ∧
      stripAnnotations (stripAnnotations s) = stripAnnotations s := by
  refine ⟨fun o close hp pre mid post hmid heq => ?_,
    stripAnnotations_of_noMatch (noMatch_stripAnnotations s)⟩
  have h := noMatch_stripAnnotations s
  rw [heq, noMatch_append_cons (annotationClose_eq_some_iff.mpr hp) hmid pre] at h
  exact Bool.false_ne_true h

/-! ### Lines -/

/-- The lazy match stops at a line terminator: on `a ++ c :: b` with `c` a line
terminator it is the lazy match on `a`, followed by the rest. -/
theorem skipToClose_append_lineTerminator {close c : Char} (hclose : isLineTerminator close = false)
    (hc : isLineTerminator c = true) (b : List Char) :
    ∀ a : List Char, skipToClose close (a ++ c :: b) = (skipToClose close a).map (· ++ c :: b)
  | [] => by
      have hne : c ≠ close := fun h => by rw [h] at hc; simp_all
      simp [skipToClose, hne, hc]
  | x :: a => by
      by_cases hx : x = close
      · simp [skipToClose, hx]
      · cases hl : isLineTerminator x <;>
          simp [skipToClose, hx, hl, skipToClose_append_lineTerminator hclose hc b a]

theorem matchesAt_append_lineTerminator {x c : Char} (hc : isLineTerminator c = true)
    (a b : List Char) : matchesAt x (a ++ c :: b) = matchesAt x a := by
  unfold matchesAt
  split
  · rfl
  · rename_i close hx
    rw [skipToClose_append_lineTerminator (annotationClose_chars hx).2.1 hc]
    cases skipToClose close a <;> rfl

/-- The cleanup only deletes: the cleaned text is a subsequence of the text. -/
theorem stripAnnotations_sublist (l : List Char) : (stripAnnotations l).Sublist l := by
  induction l using stripAnnotations_induction with
  | nil => simp [stripAnnotations]
  | keep c cs h ih => rw [stripAnnotations_cons_of_matchesAt_eq_false h]; exact ih.cons₂ c
  | skip c close cs rest hc hs ih =>
      obtain ⟨mid, rfl⟩ := skipToClose_eq_some hs
      rw [stripAnnotations_cons_of_skipToClose hc hs]
      have hrest : rest.Sublist (c :: (mid ++ close :: rest)) :=
        ((List.sublist_cons_self close rest).trans (List.sublist_append_right mid _)).trans
          (List.sublist_cons_self c _)
      exact ih.trans hrest

/-- **The cleanup works line by line.**  No match spans a line terminator, so the
cleanup keeps every line terminator, and cleaning a text is cleaning what comes
before a line terminator and what comes after it separately. -/
theorem stripAnnotations_append_lineTerminator (a b : List Char) (c : Char)
    (hc : isLineTerminator c = true) :
    stripAnnotations (a ++ c :: b) = stripAnnotations a ++ c :: stripAnnotations b := by
  induction a using stripAnnotations_induction with
  | nil =>
      have hcl : matchesAt c b = false := by
        unfold matchesAt
        split
        · rfl
        · rename_i close h
          simp_all [(annotationClose_chars h).1]
      rw [List.nil_append, stripAnnotations_cons_of_matchesAt_eq_false hcl]
      simp [stripAnnotations]
  | keep x a hm ih =>
      rw [List.cons_append, stripAnnotations_cons_of_matchesAt_eq_false
        (by rwa [matchesAt_append_lineTerminator hc]), ih,
        stripAnnotations_cons_of_matchesAt_eq_false hm, List.cons_append]
  | skip x close a rest hx hs ih =>
      have hs' : skipToClose close (a ++ c :: b) = some (rest ++ c :: b) := by
        rw [skipToClose_append_lineTerminator (annotationClose_chars hx).2.1 hc, hs]; rfl
      rw [List.cons_append, stripAnnotations_cons_of_skipToClose hx hs', ih,
        stripAnnotations_cons_of_skipToClose hx hs]

theorem stripAnnotations_append_lineTerminator_split_annotation :
    isLineTerminator '\n' = true ∧
      stripAnnotations (['[', 'a'] ++ '\n' :: ['b', ']']) =
        stripAnnotations ['[', 'a'] ++ '\n' :: stripAnnotations ['b', ']'] :=
  ⟨rfl, stripAnnotations_append_lineTerminator _ _ _ rfl⟩

/-! ### Forwarding -/

/-- The text of a call into the output collaborator. -/
def Output.text : Output → String
  | .askLlama text | .speakText text => text

/-- **Forwarded text is transcribed text.**  Every text handed to `askLlama` or
`speakText` is the segment loop's text with some characters deleted, in order:
the cleanup never inserts, duplicates or reorders a character. -/
theorem forwarded_text_sublist (speechAudioDevice : Option SpeechAudioDevice)
    (texts : List (Option String)) :
    ∀ out ∈ forwardTranscription speechAudioDevice texts,
      out.text.data.Sublist (fullTranscription texts).data := by
  intro out hout
  cases speechAudioDevice with
  | none => simp [forwardTranscription] at hout
  | some device =>
      simp only [forwardTranscription, Option.mem_def] at hout
      split_ifs at hout <;> cases hout <;> exact stripAnnotations_sublist _

theorem forwarded_text_sublist_annotation :
    Output.speakText "hi " ∈ forwardTranscription (some ⟨false⟩) [some "[x]hi"] ∧
      (Output.speakText "hi ").text.data.Sublist (fullTranscription [some "[x]hi"]).data := by
  have hfull : fullTranscription [some "[x]hi"] = "[x]hi " := rfl
  have hclean : cleanTranscription "[x]hi " = "hi " := by
    simp [cleanTranscription, stripAnnotations, annotationClose, skipToClose, isLineTerminator]
  have hmem : Output.speakText "hi " ∈ forwardTranscription (some ⟨false⟩) [some "[x]hi"] := by
    simp only [forwardTranscription, hfull, hclean]
    rfl
  exact ⟨hmem, forwarded_text_sublist _ _ _ hmem⟩

/-- A result made of one `[BLANK_AUDIO]` segment: the segment loop adds a space,
the cleanup removes the annotation and keeps the space, and the collaborator is
called with a text that holds only whitespace. -/
theorem blank_audio_forwarded (llaming : Bool) :
    forwardTranscription (some ⟨llaming⟩) [some "[BLANK_AUDIO]"] =
        some (if llaming then .askLlama " " else .speakText " ") ∧
      " ".toList.all Char.isWhitespace = true := by
  have hfull : fullTranscription [some "[BLANK_AUDIO]"] = "[BLANK_AUDIO] " := rfl
  have hclean : cleanTranscription "[BLANK_AUDIO] " = " " := by
    simp [cleanTranscription, stripAnnotations, annotationClose, skipToClose, isLineTerminator]
  refine ⟨?_, by decide⟩
  simp only [forwardTranscription, hfull, hclean]
  cases llaming <;> rfl

end WhisperTranscriber
