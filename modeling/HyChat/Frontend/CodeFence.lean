import HyChat.Frontend.FileUpload
import HyChat.Lib.FencedCode

/-!
# The code block of an uploaded file

`textFileToContentBlock` puts the text of a code file into a fenced code block, behind a line with
the file's name. The fence is one backtick longer than the longest run that could close it, so the
text stays inside and is read as it is. The name is put in as it is too: **one whose lines leave a
code block open takes the fence into that block** (`code_survives_iff`).

Texts are code units, since the cut at the character limit counts them.

What "survives" is taken to mean. A reader of Markdown, the one of the library, finds a code block
that begins right behind the header and whose contents are the beginning of the file that the block
was made of, up to the cut. The proof has two parts. No line of the text can close the fence, since
a closing fence is a run at least as long as the opening one, and the text has no such run. And the
opening fence has to be read as one, which depends on what is open when the reader gets there: that
is a matter of the header alone, and `LeavesOpen` is the condition.

A name on a single line opens nothing (`not_leavesOpen_of_line`), so the condition only matters for
names with a line break in them.
-/

set_option autoImplicit false

namespace HyChat

open Lib FencedCode

namespace Frontend

namespace CodeFence

/-! ## The block -/

def textFileMaxChars : Nat := 60000

/-- The lengths of the matches of three or more backticks, when `run` of them have been read -/
def fenceMatches (run : Nat) : Text → List Nat
  | [] => if 3 ≤ run then [run] else []
  | c :: rest =>
      if c = backtick then fenceMatches (run + 1) rest
      else if 3 ≤ run then run :: fenceMatches 0 rest
      else fenceMatches 0 rest

/-- The `reduce` over the matches, if there are any -/
def longestFence (code : Text) : Option Nat :=
  match fenceMatches 0 code with
  | [] => none
  | found => some (found.foldl max 2)

/-- One backtick more than the longest run -/
def makeMarkdownCodeFence (code : Text) : Text :=
  List.replicate ((longestFence code).getD 2 + 1) backtick

/-- A file with what `file.text()` reads from it -/
structure TextFile where
  file : File
  rawText : Text

namespace TextFile

variable (f : TextFile)

def truncated : Bool := f.rawText.length > textFileMaxChars

def text : Text := if f.truncated then f.rawText.take textFileMaxChars else f.rawText

def fence : Text := makeMarkdownCodeFence f.text

def language : Text := units (inferTextFileLanguage f.file)

def truncationNotice : Text :=
  if f.truncated then units "\n\n[文件内容过长，已截取前 60000 个字符。]" else []

/-- What stands before the fence -/
def header : Text := units "已上传代码文件：" ++ units f.file.name ++ [lf, lf]

/-- The `text` of `textFileToContentBlock` -/
def blockText : Text :=
  f.header ++ f.fence ++ f.language ++ [lf] ++ f.text ++ [lf] ++ f.fence ++ f.truncationNotice

end TextFile

/-! ## The fence -/

theorem le_foldl_max (found : List Nat) (k : Nat) : k ≤ found.foldl max k := by
  induction found generalizing k with
  | nil => exact Nat.le_refl k
  | cons m found ih => exact Nat.le_trans (Nat.le_max_left k m) (ih _)

theorem foldl_max_mono (found : List Nat) {k m : Nat} (h : k ≤ m) :
    found.foldl max k ≤ found.foldl max m := by
  induction found generalizing k m with
  | nil => exact h
  | cons a found ih => exact ih (max_le_max_right a h)

/-- No run is longer than the longest match, or than two. -/
theorem run_le_longest {n run : Nat} {code : Text}
    (h : List.replicate n backtick <:+: List.replicate run backtick ++ code) :
    n ≤ (fenceMatches run code).foldl max 2 := by
  induction code generalizing run with
  | nil =>
    have hle : n ≤ run := by simpa using h.length_le
    unfold fenceMatches
    split
    · exact Nat.le_trans hle (Nat.le_max_right 2 run)
    · simp
      omega
  | cons c code ih =>
    unfold fenceMatches
    by_cases hc : c = backtick
    · rw [if_pos hc]
      refine ih ?_
      rwa [hc, ← List.singleton_append, ← List.append_assoc,
        ← List.replicate_succ'] at h
    · rw [if_neg hc]
      have hsplit := replicate_infix_append_cons hc h
      have hrest : n ≤ (fenceMatches 0 code).foldl max 2 ∨ n ≤ run := by
        rcases hsplit with hrun | hcode
        · exact .inr (by simpa using hrun.length_le)
        · exact .inl (ih (by simpa using hcode))
      split
      · rw [List.foldl_cons]
        rcases hrest with hle | hle
        · exact Nat.le_trans hle (foldl_max_mono _ (Nat.le_max_left 2 run))
        · exact Nat.le_trans hle (Nat.le_trans (Nat.le_max_right 2 run) (le_foldl_max _ _))
      · rcases hrest with hle | hle
        · exact hle
        · exact Nat.le_trans (by omega) (le_foldl_max _ 2)

/-- The longest match bounds every run of three or more. -/
theorem longestFence_getD (code : Text) :
    (longestFence code).getD 2 = (fenceMatches 0 code).foldl max 2 := by
  unfold longestFence
  split
  · rename_i h
    rw [h]
    rfl
  · rfl

/-- **The fence is longer than every run of backticks.** -/
theorem run_lt_fence {n : Nat} {code : Text} (h : List.replicate n backtick <:+: code) :
    n < (makeMarkdownCodeFence code).length := by
  have hle := @run_le_longest n 0 code (by simpa using h)
  rw [makeMarkdownCodeFence, List.length_replicate, longestFence_getD]
  omega

/-! ## Code units -/

theorem units_append (s t : String) : units (s ++ t) = units s ++ units t := by
  simp [units]

theorem utf16_ne_nil (c : Char) : utf16 c ≠ [] := by
  unfold utf16
  split <;> simp

theorem toUInt16_ne_backtick {n : Nat} (hlt : n < 0x10000) (hne : n ≠ 0x60) :
    n.toUInt16 ≠ backtick := by
  intro h
  have hnat := congrArg UInt16.toNat h
  rw [Nat.toUInt16_eq, UInt16.toNat_ofNat_of_lt' hlt] at hnat
  exact hne hnat

/-- No character but the backtick has its code unit. -/
theorem backtick_not_mem_utf16 {c : Char} (h : c ≠ '\x60') : backtick ∉ utf16 c := by
  have hne : c.toNat ≠ 0x60 := fun hn => h (Char.toNat_inj.mp hn)
  have hlt : c.toNat < 0x110000 := by
    rcases c.valid with hlow | ⟨_, hhigh⟩
    · exact Nat.lt_trans hlow (by decide)
    · exact hhigh
  unfold utf16
  split
  · rename_i hlow
    rw [List.mem_singleton]
    exact (toUInt16_ne_backtick hlow hne).symm
  · rw [List.mem_pair, not_or]
    constructor
    · exact (toUInt16_ne_backtick (by omega) (by omega)).symm
    · exact (toUInt16_ne_backtick (by omega) (by omega)).symm

/-- What ends a run -/
theorem foldl_fenceMatches_append {us : Text} (hne : us ≠ []) (h : backtick ∉ us) (run : Nat)
    {m : Nat} (hm : 2 ≤ m) (rest : Text) :
    (fenceMatches run (us ++ rest)).foldl max m = (fenceMatches 0 rest).foldl max (max run m) := by
  induction us generalizing run m with
  | nil => exact absurd rfl hne
  | cons c us ih =>
    obtain ⟨hc, hus⟩ := List.ne_and_not_mem_of_not_mem_cons h
    have hstep : (fenceMatches run (c :: (us ++ rest))).foldl max m =
        (fenceMatches 0 (us ++ rest)).foldl max (max run m) := by
      rw [fenceMatches, if_neg (Ne.symm hc)]
      split
      · rw [List.foldl_cons, Nat.max_comm]
      · rw [Nat.max_eq_right (by omega : run ≤ m)]
    rw [List.cons_append, hstep]
    cases us with
    | nil => rfl
    | cons d us =>
      rw [ih (by simp) hus 0 (by omega), Nat.max_eq_right (Nat.zero_le _)]

theorem foldl_fenceMatches_units (run : Nat) {m : Nat} (hm : 2 ≤ m) (cs : List Char) :
    (fenceMatches run (cs.flatMap utf16)).foldl max m = Frontend.longestFence run m cs := by
  induction cs generalizing run m with
  | nil =>
    rw [List.flatMap_nil, fenceMatches, Frontend.longestFence]
    split
    · rw [List.foldl_cons, Nat.max_comm]
      rfl
    · exact (Nat.max_eq_right (by omega : run ≤ m)).symm
  | cons c cs ih =>
    rw [List.flatMap_cons, Frontend.longestFence]
    by_cases hc : c = '\x60'
    · rw [if_pos hc, ← ih (run + 1) hm, hc]
      rfl
    · rw [if_neg hc, ← ih 0 (by omega)]
      exact foldl_fenceMatches_append (utf16_ne_nil c) (backtick_not_mem_utf16 hc) run hm _

theorem units_makeMarkdownCodeFence (code : String) :
    units (Frontend.makeMarkdownCodeFence code) = makeMarkdownCodeFence (units code) := by
  have hrep : ∀ n, (List.replicate n '\x60').flatMap utf16 = List.replicate n backtick := by
    intro n
    induction n with
    | zero => rfl
    | succ n ih =>
      rw [List.replicate_succ, List.flatMap_cons, ih]
      rfl
  rw [makeMarkdownCodeFence, longestFence_getD, units, units,
    foldl_fenceMatches_units 0 (Nat.le_refl 2), Frontend.makeMarkdownCodeFence,
    String.toList_ofList, hrep]

/-- The block of the text is the one that `fileToContentBlock` sends, in code units. -/
theorem textFileToContentBlock_text {f : TextFile} {contents : Contents}
    (htext : f.text = units contents.text) (htruncated : f.truncated = contents.truncated) :
    ∃ text, ("text", .str text) ∈ textFileToContentBlock f.file contents ∧
      units text = f.blockText := by
  refine ⟨_, List.mem_cons_of_mem _ List.mem_cons_self, ?_⟩
  have hnotice : f.truncationNotice = units
      (if contents.truncated then "\n\n[文件内容过长，已截取前 60000 个字符。]" else "") := by
    rw [TextFile.truncationNotice, htruncated]
    split <;> rfl
  rw [TextFile.blockText, TextFile.header, hnotice, TextFile.fence, htext,
    ← units_makeMarkdownCodeFence]
  have htoString : ∀ s : String, toString s = s := fun _ => rfl
  have hlf : units "\n" = [lf] := rfl
  have hlfs : units "\n\n" = [lf, lf] := rfl
  simp only [TextFile.language, units_append, List.append_assoc, htoString, hlf, hlfs]

/-! ## The text in its block -/

def languages : List String := "text" :: codeExtensionLanguage.map (·.2)

theorem inferTextFileLanguage_mem (file : File) : inferTextFileLanguage file ∈ languages := by
  unfold inferTextFileLanguage
  cases hfind : codeExtensionLanguage.find? (·.1.toList == getFileExtension file.name) with
  | none => exact List.mem_cons_self
  | some entry =>
    exact List.mem_cons_of_mem _ (List.mem_map_of_mem (List.mem_of_find?_eq_some hfind))

theorem word_of_mem {language : String} (h : language ∈ languages) : Word (units language) := by
  have hall : ∀ l ∈ languages, units l ≠ [] ∧
      (units l).all (fun c => c != lf && c != cr && c != backtick && !isBlank c) = true := by decide
  obtain ⟨hne, hletters⟩ := hall language h
  refine ⟨hne, fun c hc => ?_⟩
  simpa [and_assoc] using List.all_eq_true.mp hletters c hc

namespace TextFile

variable (f : TextFile)

theorem text_eq : f.text = f.rawText.take textFileMaxChars := by
  unfold text truncated
  split
  · rfl
  · rename_i h
    exact (List.take_of_length_le (by simpa using h)).symm

/-- The notice, if there is one, is text behind the block. -/
theorem truncationNotice_cases :
    f.truncationNotice = [] ∨ ∃ rest, f.truncationNotice = lf :: rest := by
  unfold truncationNotice
  split
  · have hnotice : units "\n\n[文件内容过长，已截取前 60000 个字符。]" =
        units "\n" ++ units "\n[文件内容过长，已截取前 60000 个字符。]" := by
      rw [← units_append]
      rfl
    have hlf : units "\n" = [lf] := rfl
    rw [hnotice, hlf]
    exact .inr ⟨_, rfl⟩
  · exact .inl rfl

theorem fence_eq : f.fence = List.replicate f.fence.length backtick := by
  simp [fence, makeMarkdownCodeFence]

theorem blockText_eq : f.blockText =
    fenced (units "已上传代码文件：" ++ units f.file.name ++ [lf]) f.language f.text
      f.truncationNotice f.fence.length := by
  rw [fenced, ← f.fence_eq]
  simp [blockText, header]

/-- A reader of fenced code blocks finds the first characters of the file in a code block of their
    own: the block begins where the header ends, its contents are these characters and the line feed
    in front of the closing fence, and they stand in the block where they stand in the text. -/
def Recovered : Prop :=
  ∃ before o source after, readDocument f.blockText =
      before ++ .code o (f.rawText.take textFileMaxChars ++ [lf]) source :: after ∧
    sources before = f.header ∧ f.fence ++ f.language ++ [lf] ++ f.text ++ [lf] <+: source

theorem language_word : Word f.language := word_of_mem (inferTextFileLanguage_mem f.file)

theorem three_le_fence : 3 ≤ f.fence.length := by
  have hle := le_foldl_max (fenceMatches 0 f.text) 2
  rw [fence, makeMarkdownCodeFence, List.length_replicate, longestFence_getD]
  omega

theorem header_eq :
    f.header = (units "已上传代码文件：" ++ units f.file.name ++ [lf]) ++ [lf] := by
  simp [header]

/-- The header leaves nothing open, so the fence opens the block. -/
theorem recovered_of_closed (h : ¬ LeavesOpen f.header) : f.Recovered := by
  rw [header_eq] at h
  have hruns : ¬ List.replicate f.fence.length backtick <:+: f.text :=
    fun hrun => Nat.lt_irrefl _ (run_lt_fence hrun)
  have hread :=
    readDocument_fenced f.three_le_fence f.language_word h hruns f.truncationNotice_cases
  have hstate : (scan none (lines ((units "已上传代码文件：" ++ units f.file.name ++ [lf]) ++ [lf]))).2 =
      none := Classical.not_not.mp h
  have hsources := source_scan none
    (lines ((units "已上传代码文件：" ++ units f.file.name ++ [lf]) ++ [lf]))
  rw [hstate, flatten_lines] at hsources
  rw [← blockText_eq, ← fence_eq, f.text_eq] at hread
  refine ⟨_, _, _, _, hread, ?_, ?_⟩
  · rw [header_eq]
    simpa [openSource] using hsources
  · rw [f.text_eq]
    simp

/-- The header leaves a block open, and the fence is read inside of it. -/
theorem not_recovered_of_open (h : LeavesOpen f.header) : ¬ f.Recovered := by
  rintro ⟨before, o, source, after, hread, hbefore, _⟩
  have hpos : 0 < f.fence.length := Nat.lt_of_lt_of_le (by decide) f.three_le_fence
  rw [header_eq] at h hbefore
  rw [blockText_eq] at hread
  exact readDocument_fenced_open hpos f.language_word h hread hbefore

end TextFile

theorem opening_of_head {line : Text} {c : UInt16} (h : (content line).head? = some c)
    (hspace : c ≠ space) (hfence : ¬ (c = backtick ∨ c = tilde)) : opening line = none := by
  have hindent : indentOf (content line) = 0 := by
    obtain ⟨rest, hrest⟩ := List.head?_eq_some_iff.mp h
    rw [hrest, indentOf, List.takeWhile_cons_of_neg (by simpa using hspace)]
    rfl
  unfold opening
  simp only [hindent, List.drop_zero, h, hfence, false_and, if_false]

/-- A name on one line opens nothing. -/
theorem not_leavesOpen_of_line {f : TextFile} (h : ∀ c ∈ units f.file.name, c ≠ lf ∧ c ≠ cr) :
    ¬ LeavesOpen f.header := by
  have htitle : ∀ c ∈ units "已上传代码文件：", c ≠ lf ∧ c ≠ cr := by
    have hall : (units "已上传代码文件：").all (fun c => c != lf && c != cr) = true := by decide
    intro c hc
    simpa using List.all_eq_true.mp hall c hc
  have hline : ∀ c ∈ units "已上传代码文件：" ++ units f.file.name, c ≠ lf ∧ c ≠ cr :=
    List.forall_mem_append.mpr ⟨htitle, h⟩
  have hopening : opening (units "已上传代码文件：" ++ units f.file.name ++ [lf]) = none := by
    refine opening_of_head (c := 0x5df2) ?_ (by decide) (by decide)
    rw [content_line hline]
    rfl
  have hlines : lines f.header =
      [units "已上传代码文件：" ++ units f.file.name ++ [lf], [lf]] := by
    rw [TextFile.header_eq, List.append_assoc, List.singleton_append, lines_append_lf,
      lines_line hline]
    rfl
  have hblank : opening [lf] = none := by decide
  intro hopen
  apply hopen
  simp only [hlines, scan, step, hopening, hblank]

/-- **The code survives its fence** as far as the name allows: the fence is longer than every run of
    backticks in the text it is put around, and a reader recovers the first characters of the file
    from the block exactly when the name leaves no code block open before the fence. -/
theorem code_survives_iff (f : TextFile) :
    (∀ n, List.replicate n backtick <:+: f.text → n < f.fence.length) ∧
      (f.Recovered ↔ ¬ LeavesOpen f.header) := by
  refine ⟨fun n hrun => run_lt_fence hrun, ?_, f.recovered_of_closed⟩
  intro hrecovered hopen
  exact f.not_recovered_of_open hopen hrecovered

/-- A text with a code fence of its own, in a file whose name has one -/
def fencedName : TextFile :=
  ⟨⟨"a\n\x60\x60\x60\n.md", "text/markdown", 13⟩, units "\x60\x60\x60\n# heading"⟩

/-- **A name that opens a code block lets the text out of its own**: the fence of the text closes
    the block, and the heading behind it is read as Markdown. -/
theorem fenced_name_lets_out : ¬ fencedName.Recovered ∧
    Block.line (units "# heading\n") ∈ readDocument fencedName.blockText := by
  refine ⟨fencedName.not_recovered_of_open (by decide), by decide⟩

end CodeFence

end Frontend

end HyChat
