import Mathlib
import Chip8.Proofs.Renumbering

/-!
# Texts and their lines

A text assembles as its lines do, whether they end in a line feed or in a carriage return and a line
feed, and whether the last one has an ending or not. The lines cut out of the text may lack a
carriage return, or an empty last line, but have the same words. Main statement:
`assembleText_joinLines`.
-/

namespace Chip8.Proofs

/-- What ends a line of a text. -/
inductive LineEnding where
  | lineFeed | returnAndLineFeed
deriving DecidableEq

namespace LineEnding

/-- What stands before the line feed. -/
def front : LineEnding → String
  | lineFeed => ""
  | returnAndLineFeed => "\r"

def text (ending : LineEnding) : String :=
  ending.front ++ "\n"

end LineEnding

/-- The text of lines with an ending between each two of them, and maybe one behind the last. -/
def joinLines (ending : LineEnding) (terminated : Bool) (lines : List String) : String :=
  String.intercalate ending.text lines ++ if terminated then ending.text else ""

/-! ### Lines with the same words -/

/-- The lines have the same words one by one, up to lines with nothing on them at the end of either
list. -/
inductive SameWords : List String → List String → Prop
  | bare {texts others : List String} (htexts : ∀ text ∈ texts, Bare text)
      (hothers : ∀ text ∈ others, Bare text) : SameWords texts others
  | cons {text other : String} {texts others : List String} (hline : tokensOf text = tokensOf other)
      (hrest : SameWords texts others) : SameWords (text :: texts) (other :: others)

lemma SameWords.addLines_eq {texts others : List String} (h : SameWords texts others)
    (draft : Draft) (line : Nat) : draft.addLines line texts = draft.addLines line others := by
  induction h generalizing draft line with
  | bare htexts hothers => rw [addLines_of_bare htexts, addLines_of_bare hothers]
  | @cons text other _ _ hline _ ih =>
    have hadd : draft.addLine line text = draft.addLine line other := by
      unfold Draft.addLine Statement.read
      rw [hline]
    rw [Draft.addLines, Draft.addLines, hadd]
    cases draft.addLine line other with
    | error fault => rfl
    | ok next => exact ih next (line + 1)

theorem SameWords.assemble_eq {texts others : List String} (h : SameWords texts others)
    (target : Target) : assemble target texts = assemble target others := by
  unfold assemble
  rw [h.addLines_eq]

/-! ### Carriage returns -/

/-- A carriage return behind a line stands behind its last word or in its comment. -/
lemma tokensOf_append_return (line : String) : tokensOf (line ++ "\r") = tokensOf line := by
  have htext : (line ++ "\r").toList = line.toList ++ ['\r'] := by simp
  unfold tokensOf
  rw [htext]
  congr 1
  by_cases hcomment : ∀ c ∈ line.toList, (c != ';') = true
  · have hblank : isBlank '\r' = true := by decide
    rw [List.takeWhile_append_of_pos hcomment, List.takeWhile_eq_self_iff.mpr hcomment]
    simpa [words] using words_append_cons hblank line.toList []
  · have hshort : (line.toList.takeWhile (· != ';')).length ≠ line.toList.length := fun hlength =>
      hcomment (List.takeWhile_eq_self_iff.mp ((List.takeWhile_prefix _).eq_of_length hlength))
    rw [List.takeWhile_append, if_neg hshort]

lemma tokensOf_dropReturn (line : List Char) :
    tokensOf (String.ofList (dropReturn line)) = tokensOf (String.ofList line) := by
  unfold dropReturn
  split
  · next hlast =>
    obtain ⟨front, rfl⟩ := List.getLast?_eq_some_iff.mp hlast
    rw [List.dropLast_concat, String.ofList_append]
    exact (tokensOf_append_return _).symm
  · rfl

/-! ### The lines of a joined text -/

lemma linesOf_append_ending (ending : LineEnding) {line : String} (h : '\n' ∉ line.toList)
    (rest : String) : ∃ first, linesOf (line ++ ending.text ++ rest) = first :: linesOf rest ∧
      tokensOf first = tokensOf line := by
  have hfront : '\n' ∉ (line ++ ending.front).toList := by
    rw [String.toList_append, List.mem_append, not_or]
    exact ⟨h, by cases ending <;> decide⟩
  refine ⟨String.ofList (dropReturn (line ++ ending.front).toList), ?_, ?_⟩
  · rw [LineEnding.text, ← String.append_assoc, linesOf_append hfront]
  · rw [tokensOf_dropReturn, String.ofList_toList]
    cases ending with
    | lineFeed => rw [LineEnding.front, String.append_empty]
    | returnAndLineFeed => exact tokensOf_append_return line

lemma bare_empty : Bare "" := by
  simp [Bare]

theorem sameWords_joinLines (ending : LineEnding) (terminated : Bool) {lines : List String}
    (h : ∀ line ∈ lines, '\n' ∉ line.toList) :
    SameWords (linesOf (joinLines ending terminated lines)) lines := by
  induction lines with
  | nil =>
    have hempty : ∀ text ∈ linesOf (joinLines ending terminated []), text = "" := by
      cases ending <;> cases terminated <;> decide
    exact .bare (fun text htext => hempty text htext ▸ bare_empty) (by simp)
  | cons line lines ih =>
    have hline := h line (by simp)
    cases lines with
    | nil =>
      cases terminated with
      | false =>
        have hjoin : joinLines ending false [line] = line := by simp [joinLines]
        rw [hjoin]
        by_cases hempty : line = ""
        · subst hempty
          exact .bare (by simp [linesOf_empty]) (by simp [bare_empty])
        · rw [linesOf_of_not_mem hline hempty]
          exact .cons rfl (.bare (by simp) (by simp))
      | true =>
        have hjoin : joinLines ending true [line] = line ++ ending.text ++ "" := by
          simp [joinLines]
        obtain ⟨first, hfirst, htokens⟩ := linesOf_append_ending ending hline ""
        rw [hjoin, hfirst]
        exact .cons htokens (.bare (by simp [linesOf_empty]) (by simp))
    | cons next lines =>
      have hjoin : joinLines ending terminated (line :: next :: lines) =
          line ++ ending.text ++ joinLines ending terminated (next :: lines) := by
        simp [joinLines, String.append_assoc]
      obtain ⟨first, hfirst, htokens⟩ := linesOf_append_ending ending hline
        (joinLines ending terminated (next :: lines))
      rw [hjoin, hfirst]
      exact .cons htokens (ih fun other hother => h other (by simp [hother]))

/-- Lines without line feeds assemble as any text does that is made of them: the result is the same
program or the same fault, with the same numbers of lines. -/
theorem assembleText_joinLines (target : Target) (ending : LineEnding) (terminated : Bool)
    {lines : List String} (h : ∀ line ∈ lines, '\n' ∉ line.toList) :
    assembleText target (joinLines ending terminated lines) = assemble target lines :=
  (sameWords_joinLines ending terminated h).assemble_eq target

/-- A carriage return in a line counts as part of an ending, and the fault is on the same line. -/
theorem assembleText_joinLines_return :
    let lines := ["CLS ; start\r", "\rPUSH V1\r", ""]
    (∀ line ∈ lines, '\n' ∉ line.toList) ∧
    joinLines .lineFeed false lines = "CLS ; start\r\n\rPUSH V1\r\n" ∧
    joinLines .returnAndLineFeed true lines = "CLS ; start\r\r\n\rPUSH V1\r\r\n\r\n" ∧
    assembleText {} "CLS ; start\r\n\rPUSH V1\r\n" = .error (.source 2 (.stackNotReady .push)) ∧
    assembleText {} "CLS ; start\r\r\n\rPUSH V1\r\r\n\r\n" =
      .error (.source 2 (.stackNotReady .push)) := by
  intro lines
  have hlines : ∀ line ∈ lines, '\n' ∉ line.toList := by decide
  have hfault : assemble {} lines = .error (.source 2 (.stackNotReady .push)) := by decide +kernel
  have hfeed : joinLines .lineFeed false lines = "CLS ; start\r\n\rPUSH V1\r\n" := by decide
  have hboth : joinLines .returnAndLineFeed true lines =
      "CLS ; start\r\r\n\rPUSH V1\r\r\n\r\n" := by
    decide
  refine ⟨hlines, hfeed, hboth, ?_, ?_⟩
  · rw [← hfeed, assembleText_joinLines {} .lineFeed false hlines, hfault]
  · rw [← hboth, assembleText_joinLines {} .returnAndLineFeed true hlines, hfault]

end Chip8.Proofs
