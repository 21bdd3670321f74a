import Mathlib.Data.List.Infix
import Mathlib.Data.List.TakeWhile
import HyChat.Lib.Text

/-!
# Fenced code blocks in CommonMark

A text is a list of UTF-16 code units. It is cut into lines, each with its line ending, and the
lines are read one after another: a line outside a code block may open one, a line inside may close
it, and any other line inside belongs to its contents. A block that is not closed ends with the
document. Other constructs of Markdown are not read; their lines are left as they are.

Nothing gets lost (`source_readDocument`), and what stands between an opening fence and a closing
one is the contents when it has no run of fence characters that is as long as the fence
(`scan_contents`).

Only what decides where a code block begins and ends is read. That a fence inside a list or a
quotation is read otherwise, or that an indented block is code without a fence, is left out; a text
in which these occur is read as if they did not. The opening and the closing of a fence follow the
standard: up to three blanks before it, a run of at least three backticks or tildes, no backtick in
the info string behind backticks, and a closing run that is at least as long and has nothing behind
it.
-/

set_option autoImplicit false

namespace HyChat

namespace Lib.FencedCode

abbrev Text := List UInt16

/-- The code units of a character -/
def utf16 (c : Char) : Text :=
  if c.toNat < 0x10000 then [c.toNat.toUInt16]
  else
    [(0xd800 + (c.toNat - 0x10000) / 0x400).toUInt16,
      (0xdc00 + (c.toNat - 0x10000) % 0x400).toUInt16]

def units (text : String) : Text := text.toList.flatMap utf16

def tab : UInt16 := 0x09
def lf : UInt16 := 0x0a
def cr : UInt16 := 0x0d
def space : UInt16 := 0x20
def backtick : UInt16 := 0x60
def tilde : UInt16 := 0x7e

/-! ## Lines -/

/-- The lines of a text with their endings, when `line` has been read of the first one. A carriage
    return ends a line unless a line feed follows. -/
def linesFrom (line : Text) : Text → List Text
  | [] => if line = [] then [] else [line]
  | c :: rest =>
      if line.getLast? = some cr ∧ c ≠ lf then line :: linesFrom [c] rest
      else if c = lf then (line ++ [c]) :: linesFrom [] rest
      else linesFrom (line ++ [c]) rest

def lines (text : Text) : List Text := linesFrom [] text

/-- The line without its ending -/
def content (line : Text) : Text := line.takeWhile fun c => c ≠ lf && c ≠ cr

/-! ## Fences -/

/-- An opening code fence: its character, its length, the blanks before it, and the info string -/
structure Opening where
  char : UInt16
  length : Nat
  indent : Nat
  info : Text
  deriving DecidableEq

def isBlank (c : UInt16) : Bool := c == space || c == tab

def trim (text : Text) : Text := stripWhile isBlank text

/-- The length of the indentation of a line -/
def indentOf (line : Text) : Nat := (line.takeWhile (· == space)).length

def runOf (c : UInt16) (text : Text) : Nat := (text.takeWhile (· == c)).length

/-- The code fence that a line opens a block with. The info string of a fence of backticks has no
    backtick. -/
def opening (line : Text) : Option Opening :=
  let text := content line
  let indent := indentOf text
  let fence := text.drop indent
  match fence.head? with
  | none => none
  | some c =>
      let info := trim (fence.drop (runOf c fence))
      if (c = backtick ∨ c = tilde) ∧ indent ≤ 3 ∧ 3 ≤ runOf c fence ∧
          ¬(c = backtick ∧ backtick ∈ info) then
        some ⟨c, runOf c fence, indent, info⟩
      else none

/-- The line is a closing code fence: at least as long as the opening one, with nothing behind. -/
def Opening.closes (o : Opening) (line : Text) : Bool :=
  let text := content line
  let fence := text.drop (indentOf text)
  indentOf text ≤ 3 && o.length ≤ runOf o.char fence &&
    (fence.drop (runOf o.char fence)).all isBlank

/-- The line without as much of the indentation as the opening fence has -/
def Opening.unindent (o : Opening) (line : Text) : Text := line.drop (min o.indent (indentOf line))

/-! ## Blocks -/

/-- A line outside of all code blocks, or a code block with its contents and its source -/
inductive Block
  | line (text : Text)
  | code (opening : Opening) (literal source : Text)
  deriving DecidableEq

def Block.source : Block → Text
  | .line text => text
  | .code _ _ source => source

/-- The code block that is being read -/
structure Open where
  opening : Opening
  literal : Text
  source : Text

def step (block : Option Open) (line : Text) : List Block × Option Open :=
  match block with
  | none =>
      match opening line with
      | some o => ([], some ⟨o, [], line⟩)
      | none => ([.line line], none)
  | some b =>
      if b.opening.closes line then ([.code b.opening b.literal (b.source ++ line)], none)
      else ([], some ⟨b.opening, b.literal ++ b.opening.unindent line, b.source ++ line⟩)

/-- The blocks that have ended with these lines, and the one that has not -/
def scan : Option Open → List Text → List Block × Option Open
  | block, [] => ([], block)
  | block, line :: rest =>
      ((step block line).1 ++ (scan (step block line).2 rest).1, (scan (step block line).2 rest).2)

def finish : Option Open → List Block
  | none => []
  | some b => [.code b.opening b.literal b.source]

def readDocument (text : Text) : List Block :=
  (scan none (lines text)).1 ++ finish (scan none (lines text)).2

/-! ## Cutting into lines -/

theorem flatten_linesFrom (line text : Text) : (linesFrom line text).flatten = line ++ text := by
  induction text generalizing line with
  | nil =>
    unfold linesFrom
    split
    · rename_i h
      rw [h]
      rfl
    · simp
  | cons c rest ih =>
    unfold linesFrom
    split
    · rw [List.flatten_cons, ih]
      rfl
    · split
      · rw [List.flatten_cons, ih]
        simp
      · rw [ih]
        simp

theorem flatten_lines (text : Text) : (lines text).flatten = text := flatten_linesFrom [] text

theorem infix_of_mem_lines {line text : Text} (h : line ∈ lines text) : line <:+: text := by
  have hflat := List.infix_of_mem_flatten h
  rwa [flatten_lines] at hflat

/-- A line feed ends a line, whatever comes before it. -/
theorem linesFrom_append_lf (line text rest : Text) :
    linesFrom line (text ++ lf :: rest) = linesFrom line (text ++ [lf]) ++ lines rest := by
  induction text generalizing line with
  | nil => simp [linesFrom, lines]
  | cons c text ih =>
    simp only [List.cons_append, linesFrom]
    split
    · rw [ih, List.cons_append]
    · split
      · rw [ih, List.cons_append]
      · exact ih _

theorem lines_append_lf (text rest : Text) :
    lines (text ++ lf :: rest) = lines (text ++ [lf]) ++ lines rest :=
  linesFrom_append_lf [] text rest

/-- A text without line endings is a single line, with the line feed that ends it. -/
theorem linesFrom_line {line text : Text} (hline : line.getLast? ≠ some cr)
    (h : ∀ c ∈ text, c ≠ lf ∧ c ≠ cr) : linesFrom line (text ++ [lf]) = [line ++ text ++ [lf]] := by
  induction text generalizing line with
  | nil => simp [linesFrom]
  | cons c text ih =>
    obtain ⟨hlf, hcr⟩ := h c List.mem_cons_self
    have hlast : (line ++ [c]).getLast? ≠ some cr := by simpa using hcr
    rw [List.cons_append, linesFrom, if_neg (fun hc => hline hc.1), if_neg hlf,
      ih hlast fun d hd => h d (List.mem_cons_of_mem _ hd)]
    simp

theorem lines_line {text : Text} (h : ∀ c ∈ text, c ≠ lf ∧ c ≠ cr) :
    lines (text ++ [lf]) = [text ++ [lf]] := linesFrom_line (by simp) h

/-- The last line may have no ending. -/
theorem linesFrom_last {line text : Text} (hline : line.getLast? ≠ some cr)
    (h : ∀ c ∈ text, c ≠ lf ∧ c ≠ cr) (hne : line ++ text ≠ []) :
    linesFrom line text = [line ++ text] := by
  induction text generalizing line with
  | nil =>
    rw [List.append_nil] at hne ⊢
    exact if_neg hne
  | cons c text ih =>
    obtain ⟨hlf, hcr⟩ := h c List.mem_cons_self
    have hlast : (line ++ [c]).getLast? ≠ some cr := by simpa using hcr
    rw [linesFrom, if_neg (fun hc => hline hc.1), if_neg hlf,
      ih hlast (fun d hd => h d (List.mem_cons_of_mem _ hd)) (by simp)]
    simp

theorem lines_last {text : Text} (h : ∀ c ∈ text, c ≠ lf ∧ c ≠ cr) (hne : text ≠ []) :
    lines text = [text] := linesFrom_last (by simp) h hne

theorem content_line {text : Text} (h : ∀ c ∈ text, c ≠ lf ∧ c ≠ cr) :
    content (text ++ [lf]) = text := by
  unfold content
  rw [List.takeWhile_append_of_pos]
  · simp
  · intro c hc
    simpa using h c hc

theorem content_last {text : Text} (h : ∀ c ∈ text, c ≠ lf ∧ c ≠ cr) : content text = text :=
  List.takeWhile_eq_self_iff.mpr fun c hc => by simpa using h c hc

/-! ## Reading -/

theorem scan_append (block : Option Open) (first rest : List Text) :
    scan block (first ++ rest) =
      ((scan block first).1 ++ (scan (scan block first).2 rest).1,
        (scan (scan block first).2 rest).2) := by
  induction first generalizing block with
  | nil => rfl
  | cons line first ih =>
    rw [List.cons_append, scan, ih, scan]
    simp

/-- The source of what has been read, the open block included -/
def sources (blocks : List Block) : Text := blocks.flatMap Block.source

def openSource : Option Open → Text
  | none => []
  | some b => b.source

theorem sources_append (first rest : List Block) :
    sources (first ++ rest) = sources first ++ sources rest := List.flatMap_append

theorem source_step (block : Option Open) (line : Text) :
    sources (step block line).1 ++ openSource (step block line).2 = openSource block ++ line := by
  cases block with
  | none =>
    simp only [step]
    split
    · rfl
    · simp [sources, openSource, Block.source]
  | some b =>
    simp only [step]
    split
    · simp [sources, openSource, Block.source]
    · rfl

theorem source_scan (block : Option Open) (rest : List Text) :
    sources (scan block rest).1 ++ openSource (scan block rest).2 =
      openSource block ++ rest.flatten := by
  induction rest generalizing block with
  | nil => simp [scan, sources]
  | cons line rest ih =>
    rw [scan, sources_append, List.append_assoc, ih, ← List.append_assoc, source_step,
      List.flatten_cons, List.append_assoc]

theorem sources_finish (block : Option Open) : sources (finish block) = openSource block := by
  cases block with
  | none => rfl
  | some b => simp [finish, sources, Block.source, openSource]

/-- **Nothing gets lost**: the sources of the blocks are the document. -/
theorem source_readDocument (text : Text) : sources (readDocument text) = text := by
  rw [readDocument, sources_append, sources_finish, source_scan, flatten_lines]
  rfl

/-- The document behind a line feed is read from where the lines before it have left off. -/
theorem readDocument_append_lf (text rest : Text) :
    readDocument (text ++ lf :: rest) =
      (scan none (lines (text ++ [lf]))).1 ++
        ((scan (scan none (lines (text ++ [lf]))).2 (lines rest)).1 ++
          finish (scan (scan none (lines (text ++ [lf]))).2 (lines rest)).2) := by
  rw [readDocument, lines_append_lf, scan_append, List.append_assoc]

/-! ## The contents of a block -/

theorem replicate_infix_append_cons {α : Type} {n : Nat} {t c : α} {xs ys : List α} (hc : c ≠ t)
    (h : List.replicate n t <:+: xs ++ c :: ys) :
    List.replicate n t <:+: xs ∨ List.replicate n t <:+: ys := by
  obtain ⟨s, u, h⟩ := h
  rw [List.append_assoc] at h
  rcases List.append_eq_append_iff.mp h with ⟨as, rfl, hrest⟩ | ⟨bs, rfl, hrest⟩
  · rcases List.append_eq_append_iff.mp hrest with ⟨more, rfl, _⟩ | ⟨more, hrun, hmore⟩
    · exact .inl ⟨s, more, by simp⟩
    · cases more with
      | nil =>
        rw [List.append_nil] at hrun
        exact .inl ⟨s, [], by simp [hrun]⟩
      | cons d more =>
        -- the run would contain the character that is not its own
        obtain ⟨rfl, _⟩ := List.cons.inj hmore
        have hmem : c ∈ List.replicate n t := hrun ▸ by simp
        exact absurd (List.eq_of_mem_replicate hmem) hc
  · cases bs with
    | nil =>
      cases n with
      | zero => exact .inl List.nil_infix
      | succ n =>
        obtain ⟨rfl, _⟩ := List.cons.inj hrest
        exact absurd rfl hc
    | cons d bs =>
      obtain ⟨_, rfl⟩ := List.cons.inj hrest
      exact .inr ⟨bs, u, by simp⟩

theorem runOf_infix (c : UInt16) (text : Text) : List.replicate (runOf c text) c <:+: text := by
  have hrun : text.takeWhile (· == c) = List.replicate (runOf c text) c := by
    refine List.eq_replicate_iff.mpr ⟨rfl, fun d hd => ?_⟩
    exact beq_iff_eq.mp (List.mem_takeWhile_imp (p := (· == c)) hd)
  rw [← hrun]
  exact (List.takeWhile_prefix _).isInfix

/-- A closing fence has a run of the fence's character that is as long as the fence. -/
theorem Opening.closes_infix {o : Opening} {line : Text} (h : o.closes line = true) :
    List.replicate o.length o.char <:+: line := by
  unfold Opening.closes at h
  simp only [Bool.and_eq_true, decide_eq_true_eq] at h
  obtain ⟨⟨_, hlength⟩, _⟩ := h
  have hrun := runOf_infix o.char ((content line).drop (indentOf (content line)))
  refine List.IsInfix.trans ?_ (hrun.trans ?_)
  · obtain ⟨k, hk⟩ := Nat.exists_eq_add_of_le hlength
    rw [hk, List.replicate_add]
    exact (List.prefix_append _ _).isInfix
  · exact (List.drop_suffix _ _).isInfix.trans (List.takeWhile_prefix _).isInfix

/-- **The contents**: lines without a run as long as the fence are read as they are. -/
theorem scan_contents {b : Open} (hindent : b.opening.indent = 0) {rest : List Text}
    (h : ∀ line ∈ rest, ¬ List.replicate b.opening.length b.opening.char <:+: line) :
    scan (some b) rest =
      ([], some ⟨b.opening, b.literal ++ rest.flatten, b.source ++ rest.flatten⟩) := by
  induction rest generalizing b with
  | nil => simp [scan]
  | cons line rest ih =>
    have hcloses : b.opening.closes line = false := by
      cases hc : b.opening.closes line with
      | true => exact absurd (Opening.closes_infix hc) (h line List.mem_cons_self)
      | false => rfl
    have hstep : step (some b) line =
        ([], some ⟨b.opening, b.literal ++ line, b.source ++ line⟩) := by
      simp [step, hcloses, Opening.unindent, hindent]
    have hrest := ih (b := ⟨b.opening, b.literal ++ line, b.source ++ line⟩) hindent
      fun l hl => h l (List.mem_cons_of_mem _ hl)
    rw [scan, hstep]
    simp only [hrest]
    simp

/-! ## A fence around a text -/

theorem runOf_replicate {c : UInt16} {n : Nat} {rest : Text} (h : c ∉ rest) :
    runOf c (List.replicate n c ++ rest) = n := by
  have hrest : rest.takeWhile (· == c) = [] := by
    cases rest with
    | nil => rfl
    | cons d rest =>
      rw [List.takeWhile_cons_of_neg]
      intro hd
      exact h (beq_iff_eq.mp hd ▸ List.mem_cons_self)
  unfold runOf
  rw [List.takeWhile_append_of_pos fun d hd => beq_iff_eq.mpr (List.eq_of_mem_replicate hd), hrest]
  simp

theorem runOf_eq_zero {c : UInt16} {text : Text} (h : text.head? ≠ some c) : runOf c text = 0 := by
  cases text with
  | nil => rfl
  | cons d text =>
    unfold runOf
    rw [List.takeWhile_cons_of_neg]
    · rfl
    · intro hd
      exact h (congrArg some (beq_iff_eq.mp hd))

/-- An info string that is one word -/
structure Word (info : Text) : Prop where
  nonempty : info ≠ []
  letters : ∀ c ∈ info, c ≠ lf ∧ c ≠ cr ∧ c ≠ backtick ∧ isBlank c = false

section Fence

variable {n : Nat}

theorem fence_letters : ∀ c ∈ List.replicate n backtick, c ≠ lf ∧ c ≠ cr := by
  intro c hc
  rw [List.eq_of_mem_replicate hc]
  decide

theorem indentOf_fence (hn : 0 < n) (rest : Text) :
    indentOf (List.replicate n backtick ++ rest) = 0 := by
  obtain ⟨m, rfl⟩ := Nat.exists_eq_add_of_lt hn
  rfl

theorem Word.line {info : Text} (h : Word info) :
    ∀ c ∈ List.replicate n backtick ++ info, c ≠ lf ∧ c ≠ cr :=
  List.forall_mem_append.mpr ⟨fence_letters, fun c hc => ⟨(h.letters c hc).1, (h.letters c hc).2.1⟩⟩

theorem Word.not_mem {info : Text} (h : Word info) : backtick ∉ info :=
  fun hmem => (h.letters _ hmem).2.2.1 rfl

/-- A fence of backticks with a word behind it opens a block. -/
theorem opening_fence {info : Text} (hn : 3 ≤ n) (h : Word info) :
    opening (List.replicate n backtick ++ info ++ [lf]) = some ⟨backtick, n, 0, info⟩ := by
  have hhead : (List.replicate n backtick ++ info).head? = some backtick := by
    obtain ⟨m, rfl⟩ := Nat.exists_eq_add_of_le hn
    rw [Nat.add_comm]
    rfl
  have hdrop : (List.replicate n backtick ++ info).drop n = info := List.drop_left' (by simp)
  have htrim : trim info = info := stripWhile_eq_self fun c hc => (h.letters c hc).2.2.2
  unfold opening
  simp only [content_line h.line, indentOf_fence (by omega : 0 < n), List.drop_zero, hhead,
    runOf_replicate h.not_mem, hdrop, htrim]
  simp [hn, h.not_mem]

/-- It closes none, of whatever kind. -/
theorem closes_fence_word {info : Text} (hn : 0 < n) (h : Word info) (o : Opening) :
    o.closes (List.replicate n backtick ++ info ++ [lf]) = false := by
  have hblank : (((List.replicate n backtick ++ info).drop
      (runOf o.char (List.replicate n backtick ++ info))).all isBlank) = false := by
    obtain ⟨c, rest, hinfo⟩ := List.exists_cons_of_ne_nil h.nonempty
    by_cases hchar : o.char = backtick
    · rw [hchar, runOf_replicate h.not_mem, List.drop_left' (by simp), hinfo, List.all_cons,
        (h.letters c (hinfo ▸ List.mem_cons_self)).2.2.2]
      rfl
    · obtain ⟨m, rfl⟩ := Nat.exists_eq_add_of_lt hn
      rw [runOf_eq_zero]
      · rfl
      · intro hhead
        exact hchar (Option.some.inj hhead).symm
  unfold Opening.closes
  simp only [content_line h.line, indentOf_fence hn, List.drop_zero, hblank, Bool.and_false]

/-- A fence of the same length, with or without a line ending, closes the block. -/
theorem closes_fence (hn : 0 < n) (info : Text) {line : Text}
    (hline : content line = List.replicate n backtick) :
    Opening.closes ⟨backtick, n, 0, info⟩ line = true := by
  have hindent : indentOf (List.replicate n backtick) = 0 := by
    simpa using indentOf_fence hn []
  have hrun : runOf backtick (List.replicate n backtick) = n := by
    simpa using @runOf_replicate backtick n [] List.not_mem_nil
  unfold Opening.closes
  simp only [hline, hindent, List.drop_zero, hrun]
  simp

end Fence

/-! ## A document behind an open block -/

/-- The next block begins with what has been read of the open one. -/
theorem scan_open (b : Open) (rest : List Text) :
    ∃ first more, (scan (some b) rest).1 ++ finish (scan (some b) rest).2 = first :: more ∧
      b.source <+: first.source := by
  induction rest generalizing b with
  | nil => exact ⟨_, [], rfl, List.prefix_refl _⟩
  | cons line rest ih =>
    rw [scan]
    unfold step
    simp only
    split
    · exact ⟨_, _, rfl, List.prefix_append _ _⟩
    · obtain ⟨first, more, heq, hprefix⟩ :=
        ih ⟨b.opening, b.literal ++ b.opening.unindent line, b.source ++ line⟩
      exact ⟨first, more, heq, (List.prefix_append _ _).trans hprefix⟩

theorem opening_ne_nil {line : Text} {o : Opening} (h : opening line = some o) : line ≠ [] := by
  rintro rfl
  cases h

/-- An open block has a source. -/
theorem scan_source_ne_nil {rest : List Text} {block : Option Open} {b : Open}
    (hblock : ∀ b, block = some b → b.source ≠ []) (h : (scan block rest).2 = some b) :
    b.source ≠ [] := by
  induction rest generalizing block with
  | nil => exact hblock b h
  | cons line rest ih =>
    refine ih ?_ h
    intro b' hb'
    cases block with
    | none =>
      simp only [step] at hb'
      split at hb'
      · rename_i o ho
        cases hb'
        exact opening_ne_nil ho
      · cases hb'
    | some b =>
      simp only [step] at hb'
      split at hb'
      · cases hb'
      · cases hb'
        exact fun hnil => hblock b rfl (List.append_eq_nil_iff.mp hnil).1

/-! ## A text between two fences -/

/-- The text opens a code block that it does not close. -/
def LeavesOpen (text : Text) : Prop := (scan none (lines text)).2 ≠ none

instance (text : Text) : Decidable (LeavesOpen text) :=
  match h : (scan none (lines text)).2 with
  | none => isFalse fun hopen => hopen h
  | some _ => isTrue fun hnone => by
      rw [h] at hnone
      cases hnone

section Fenced

variable {head info text tail : Text} {n : Nat}

/-- The document: what comes before, the text between two fences, and what comes behind -/
def fenced (head info text tail : Text) (n : Nat) : Text :=
  head ++ lf :: (List.replicate n backtick ++ info ++ lf ::
    (text ++ lf :: (List.replicate n backtick ++ tail)))

/-- The block that ends with its closing fence, and what is read behind it -/
theorem read_closing (hn : 0 < n) (htail : tail = [] ∨ ∃ rest, tail = lf :: rest)
    (literal source : Text) :
    (scan (some ⟨⟨backtick, n, 0, info⟩, literal, source⟩)
          (lines (List.replicate n backtick ++ tail))).1 ++
        finish (scan (some ⟨⟨backtick, n, 0, info⟩, literal, source⟩)
          (lines (List.replicate n backtick ++ tail))).2 =
      .code ⟨backtick, n, 0, info⟩ literal (source ++ (List.replicate n backtick ++ tail.take 1)) ::
        readDocument (tail.drop 1) := by
  have hne : List.replicate n backtick ≠ [] := by
    obtain ⟨m, rfl⟩ := Nat.exists_eq_add_of_lt hn
    intro hnil
    cases hnil
  rcases htail with rfl | ⟨rest, rfl⟩
  · have hclose := closes_fence hn info (content_last (fence_letters (n := n)))
    rw [List.append_nil, lines_last fence_letters hne]
    simp [scan, step, hclose, finish, readDocument, lines, linesFrom]
  · have hclose := closes_fence hn info (content_line (fence_letters (n := n)))
    rw [lines_append_lf, lines_line fence_letters, List.singleton_append, scan]
    simp [step, hclose, readDocument]

/-- **A text between two fences is read as the contents of a code block**, when nothing before it is
    open and it has no run as long as the fence. -/
theorem readDocument_fenced (hn : 3 ≤ n) (hinfo : Word info) (hopen : ¬ LeavesOpen (head ++ [lf]))
    (hruns : ¬ List.replicate n backtick <:+: text)
    (htail : tail = [] ∨ ∃ rest, tail = lf :: rest) :
    readDocument (fenced head info text tail n) =
      (scan none (lines (head ++ [lf]))).1 ++
        .code ⟨backtick, n, 0, info⟩ (text ++ [lf])
          (List.replicate n backtick ++ info ++ [lf] ++ (text ++ [lf]) ++
            (List.replicate n backtick ++ tail.take 1)) ::
        readDocument (tail.drop 1) := by
  have hstate : (scan none (lines (head ++ [lf]))).2 = none := Classical.not_not.mp hopen
  have hlines : ∀ line ∈ lines (text ++ [lf]), ¬ List.replicate n backtick <:+: line := by
    intro line hline hrun
    have hrun' := hrun.trans (infix_of_mem_lines hline)
    rcases replicate_infix_append_cons (by decide) hrun' with h | h
    · exact hruns h
    · have hlen := h.length_le
      simp at hlen
      omega
  rw [fenced, readDocument_append_lf, hstate, lines_append_lf (List.replicate n backtick ++ info),
    lines_line hinfo.line, lines_append_lf text, List.singleton_append, scan, step,
    opening_fence hn hinfo]
  simp only [List.nil_append]
  rw [scan_append, scan_contents rfl hlines, flatten_lines]
  simp only [List.nil_append]
  rw [read_closing (by omega) htail]

/-- What is open takes the fence in. -/
theorem readDocument_fenced_open (hn : 0 < n) (hinfo : Word info)
    (hopen : LeavesOpen (head ++ [lf])) {before after : List Block} {block : Block}
    (h : readDocument (fenced head info text tail n) = before ++ block :: after) :
    sources before ≠ head ++ [lf] := by
  intro hbefore
  obtain ⟨b, hb⟩ := Option.ne_none_iff_exists'.mp hopen
  have hne : b.source ≠ [] := scan_source_ne_nil (fun _ h => by cases h) hb
  have hsources := source_scan none (lines (head ++ [lf]))
  rw [hb, flatten_lines] at hsources
  rw [fenced, readDocument_append_lf, hb, lines_append_lf (List.replicate n backtick ++ info),
    lines_line hinfo.line, List.singleton_append, scan, step] at h
  simp only [closes_fence_word hn hinfo, Bool.false_eq_true, if_false, List.nil_append] at h
  obtain ⟨first, more, hfirst, hprefix⟩ := scan_open
    ⟨b.opening, b.literal ++ b.opening.unindent (List.replicate n backtick ++ info ++ [lf]),
      b.source ++ (List.replicate n backtick ++ info ++ [lf])⟩
    (lines (text ++ lf :: (List.replicate n backtick ++ tail)))
  rw [hfirst] at h
  have hlonger : b.source.length < first.source.length := by
    have hle := hprefix.length_le
    simp only [List.length_append, List.length_singleton] at hle
    omega
  have hpositive : 0 < b.source.length := List.length_pos_iff.mpr hne
  have hlength := congrArg List.length (hsources.trans hbefore.symm)
  simp only [List.length_append, openSource] at hlength
  rcases List.append_eq_append_iff.mp h with ⟨as, rfl, hrest⟩ | ⟨rest, hscan, _⟩
  · rw [sources_append, List.length_append] at hlength
    cases as with
    | nil =>
      simp only [sources, List.flatMap_nil, List.length_nil] at hlength
      omega
    | cons blk as =>
      obtain ⟨rfl, _⟩ := List.cons.inj hrest
      simp only [sources, List.flatMap_cons, List.length_append] at hlength
      omega
  · rw [hscan, sources_append, List.length_append] at hlength
    omega

end Fenced

end Lib.FencedCode

end HyChat
