import ResonanceAgent.Js.Text

/-! # The search/replace block format

`prompts.ts` (lines 38–55) tells the model how to write the content of an `edit_file` call: one
or more blocks, each made of the marker `ORIGINAL`, the text to find, the marker `DIVIDER`, the
text to put in its place and the marker `FINAL`, each on lines of their own, with a blank line
between two blocks (`searchReplaceBlockTemplate`).

* `SearchReplaceBlock` is one block: its two texts, with the proof that neither holds a marker
  that would end it early.
* `blockText b` writes one block and `searchReplaceBlocks bs` writes a list of them as the
  template does; the template itself is two blocks of placeholder text
  (`searchReplaceBlockTemplate_eq`).
* `blockBody b` and `blocksTail bs` are the same text as lists of characters, cut after each
  `ORIGINAL`, where the reader of `Browser/EditTool.lean` cuts it.
-/

namespace ResonanceAgent.Prompt
open ResonanceAgent.Js
set_option autoImplicit false

/-! ## The markers and the template -/

def ORIGINAL : String := "<<<<<<< ORIGINAL"
def DIVIDER : String := "======="
def FINAL : String := ">>>>>>> UPDATED"

/-- The two example blocks of the `edit_file` description. -/
def searchReplaceBlockTemplate : String :=
  ORIGINAL ++ "\n// ... original code goes here\n" ++ DIVIDER ++ "\n// ... final code goes here\n" ++
    FINAL ++ "\n\n" ++
  ORIGINAL ++ "\n// ... original code goes here\n" ++ DIVIDER ++ "\n// ... final code goes here\n" ++
    FINAL

theorem original_ne_nil : ORIGINAL.data ≠ [] := by decide
theorem divider_ne_nil : DIVIDER.data ≠ [] := by decide
theorem newline_not_mem_original : '\n' ∉ ORIGINAL.data := by decide
theorem newline_not_mem_divider : '\n' ∉ DIVIDER.data := by decide
theorem newline_not_mem_final : '\n' ∉ FINAL.data := by decide

/-! ## Blocks -/

/-- A block of the format: the text to find and the text to put in its place. The text to find
holds neither `ORIGINAL` nor `DIVIDER`, the text put in its place none of the three markers, so
that no marker ends either of them early. -/
structure SearchReplaceBlock where
  original : String
  updated : String
  original_ok : ¬ ORIGINAL.data <:+: original.data ∧ ¬ DIVIDER.data <:+: original.data
  updated_ok : ¬ ORIGINAL.data <:+: updated.data ∧ ¬ DIVIDER.data <:+: updated.data ∧
    ¬ FINAL.data <:+: updated.data

/-- One block, each marker and text on lines of its own. -/
def blockText (b : SearchReplaceBlock) : String :=
  ORIGINAL ++ "\n" ++ b.original ++ "\n" ++ DIVIDER ++ "\n" ++ b.updated ++ "\n" ++ FINAL

/-- Blocks with a blank line between two of them. -/
def searchReplaceBlocks (blocks : List SearchReplaceBlock) : String :=
  jsJoin (blocks.map blockText) "\n\n"

/-- The template is the format at two blocks of placeholder text. -/
theorem searchReplaceBlockTemplate_eq :
    let placeholder : SearchReplaceBlock :=
      ⟨"// ... original code goes here", "// ... final code goes here", by decide, by decide⟩
    searchReplaceBlockTemplate = searchReplaceBlocks [placeholder, placeholder] :=
  rfl

/-! ## The text cut after each `ORIGINAL` -/

/-- What follows `ORIGINAL` in a block. -/
def blockBody (b : SearchReplaceBlock) : List Char :=
  '\n' :: (b.original.data ++ '\n' :: (DIVIDER.data ++ '\n' :: (b.updated.data ++ '\n' :: FINAL.data)))

/-- What follows the first block: each further block after its blank line. -/
def blocksTail : List SearchReplaceBlock → List Char
  | [] => []
  | b :: bs => '\n' :: '\n' :: (ORIGINAL.data ++ blockBody b ++ blocksTail bs)

theorem blockText_data (b : SearchReplaceBlock) :
    (blockText b).data = ORIGINAL.data ++ blockBody b := by
  simp only [blockText, blockBody, String.data_append, List.append_assoc]
  rfl

theorem searchReplaceBlocks_cons_data (b : SearchReplaceBlock) (bs : List SearchReplaceBlock) :
    (searchReplaceBlocks (b :: bs)).data = ORIGINAL.data ++ blockBody b ++ blocksTail bs := by
  induction bs generalizing b with
  | nil => simp [searchReplaceBlocks, blockText_data, blocksTail]
  | cons b' bs ih =>
    have hrest := ih b'
    simp only [searchReplaceBlocks, List.map_cons] at hrest ⊢
    rw [jsJoin_cons_cons, String.data_append, String.data_append, hrest, blockText_data]
    simp [blocksTail]

/-- `ORIGINAL` occurs in no block body: a block ends where the next one starts. -/
theorem original_not_infix_blockBody (b : SearchReplaceBlock) : ¬ ORIGINAL.data <:+: blockBody b :=
  have hn := newline_not_mem_original
  not_infix_cons original_ne_nil hn <| not_infix_append_cons hn b.original_ok.1 <|
    not_infix_append_cons hn (by decide) <| not_infix_append_cons hn b.updated_ok.1 (by decide)

end ResonanceAgent.Prompt
