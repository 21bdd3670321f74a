import HyChat.Tracing.SafeJson

/-!
# What a text says about the user's name

The regular expressions of the memory service, read as matchers on characters. None of them can
backtrack: the blanks a pattern skips are never the start of a name, and a name is followed by
nothing. `finditer` therefore is one pass over the text that skips what a match has consumed.
-/

set_option autoImplicit false

namespace HyChat

open Lib

namespace Memory

/-! ## Characters -/

def isCjk (c : Char) : Bool := 0x4e00 ≤ c.toNat && c.toNat ≤ 0x9fff

/-- `[A-Za-z]` -/
def isLetter (c : Char) : Bool := ('A' ≤ c && c ≤ 'Z') || ('a' ≤ c && c ≤ 'z')

/-- A letter of the pattern that `re.IGNORECASE` takes the character for: besides the two cases, the
    dotted and the dotless i, the long s and the Kelvin sign. -/
def foldCase (c : Char) : Char :=
  if 'A' ≤ c && c ≤ 'Z' then Char.ofNat (c.toNat + 32)
  else if c.toNat == 0x130 || c.toNat == 0x131 then 'i'
  else if c.toNat == 0x17f then 's'
  else if c.toNat == 0x212a then 'k'
  else c

/-- The rest of the text after a literal, compared after `fold`. -/
def afterLiteral (fold : Char → Char) : List Char → List Char → Option (List Char)
  | [], text => some text
  | _ :: _, [] => none
  | c :: lit, d :: text => if c = fold d then afterLiteral fold lit text else none

/-- The rest after the first literal that fits. -/
def afterAny (fold : Char → Char) (literals : List String) (text : List Char) :
    Option (List Char) :=
  literals.findSome? fun lit => afterLiteral fold lit.toList text

/-! ## The patterns -/

/-- A name pattern: its introductions, whether a blank must follow, and the characters a name
    starts with and goes on with. -/
structure NamePattern where
  introductions : List String
  fold : Char → Char
  needsBlank : Bool
  first : Char → Bool
  next : Char → Bool

def NAME_PATTERNS : List NamePattern :=
  [⟨["我叫", "我的名字是", "我的姓名是", "叫我"], id, false, fun c => isCjk c || isLetter c,
      fun c => isCjk c || isLetter c || c.isDigit || c == '_' || c == '-' || c == '·'⟩,
    ⟨["my name is", "call me"], foldCase, true, fun c => isLetter (foldCase c),
      fun c => isLetter (foldCase c) || c.isDigit || c == '_' || c == '-' || c == '.' ||
        c.toNat == 39 || c == ' '⟩]

/-- The pattern at the start of the text: the name, and how many characters the match consumes. -/
def NamePattern.matchAt (p : NamePattern) (text : List Char) : Option (List Char × Nat) :=
  match afterAny p.fold p.introductions text with
  | none => none
  | some rest =>
      let blanks := rest.takeWhile Py.isSpace
      if p.needsBlank && blanks.isEmpty then none
      else
        match rest.dropWhile Py.isSpace with
        | [] => none
        | c :: more =>
            if p.first c then
              let name := c :: (more.take 39).takeWhile p.next
              some (name, text.length - rest.length + blanks.length + name.length)
            else none

/-- The names of `pattern.finditer(text)`, from left to right; `skip` characters belong to the
    match before. -/
def NamePattern.finditer (p : NamePattern) : Nat → List Char → List (List Char)
  | _, [] => []
  | skip + 1, _ :: rest => p.finditer skip rest
  | 0, c :: rest =>
      match p.matchAt (c :: rest) with
      | some (name, length) => name :: p.finditer (length - 1) rest
      | none => p.finditer 0 rest

/-- `.{0,8}(?:我的)?(?:名字|姓名|name)` after the verb, with `gap` characters left to skip. -/
def namesTheName : Nat → List Char → Bool
  | gap, text =>
      let here := (afterAny foldCase ["我的名字", "我的姓名", "我的name", "名字", "姓名", "name"] text).isSome
      match gap, text with
      | gap + 1, c :: rest => here || (c != '\n' && namesTheName gap rest)
      | _, _ => here

def forgetVerbs : List String := ["忘记", "别记", "不要记", "不用记", "删除", "清除"]

/-- `FORGET_NAME_PATTERN.search(text)` -/
def asksToForgetName (text : List Char) : Bool :=
  text.tails.any fun rest =>
    match afterAny foldCase forgetVerbs rest with
    | some after => namesTheName 8 after
    | none => false

/-! ## Names -/

def strippedMarks : List Char := " \t\r\n，。,.!?！？；;:：\"'“”‘’".toList

/-- `" ".join(value.split())`; `pending` says that a blank has been passed since the last word. -/
def joinWords : Bool → List Char → List Char
  | _, [] => []
  | pending, c :: rest =>
      if Py.isSpace c then joinWords true rest
      else if pending then ' ' :: c :: joinWords false rest
      else c :: joinWords false rest

/-- `clean_memory_value` -/
def cleanMemoryValue (value : List Char) : List Char :=
  (joinWords false ((Py.stripChars strippedMarks value).dropWhile Py.isSpace)).take 240

def invalidNamePrefixes : List String := ["一个", "一名", "不是", "不叫", "来自", "现在"]

def occursIn (part : String) (value : List Char) : Bool :=
  value.tails.any fun rest => part.toList.isPrefixOf rest

def isValidName (value : List Char) : Bool :=
  !value.isEmpty && !invalidNamePrefixes.any (fun p => p.toList.isPrefixOf value) &&
    !(["?", "？", "吗", "什么"].any fun mark => occursIn mark value) && value.length ≤ 40

/-- `extract_memory_updates`: the name to store, and whether the name is to be deleted. -/
def extractMemoryUpdates (text : String) : Option String × Bool :=
  let names := NAME_PATTERNS.flatMap fun p => (p.finditer 0 text.toList).map cleanMemoryValue
  ((names.filter isValidName).getLast?.map String.ofList, asksToForgetName text.toList)

/-! ## Messages -/

/-- A message of a request or of a trace: its type and its content. -/
structure Message where
  type : String
  content : Json
  deriving DecidableEq

mutual
/-- `content_to_text` -/
def contentToText : Json → String
  | .str s => s
  | .obj kvs =>
      match kvs.lookup "text" with
      | some (.str s) => s
      | _ => ""
  | .arr items => "\n".intercalate (contentTexts items)
  | _ => ""
termination_by structural j => j

/-- The texts of the items that are not blank. -/
def contentTexts : List Json → List String
  | [] => []
  | item :: rest =>
      let text := contentToText item
      if text.toList.all Py.isSpace then contentTexts rest else text :: contentTexts rest
termination_by structural items => items
end

/-- `is_human_message` -/
def Message.isHuman (m : Message) : Bool := m.type == "human" || m.type == "user"

/-- What one message says: nothing, unless a human wrote it. -/
def Message.updates (m : Message) : Option String × Bool :=
  if m.isHuman then extractMemoryUpdates (contentToText m.content) else (none, false)

example : extractMemoryUpdates "你好，我叫 张三。" = (some "张三", false) := by decide +kernel

example : extractMemoryUpdates "请忘记我的名字" = (none, true) := by decide +kernel

example : extractMemoryUpdates "My name is  Ann Lee, call me Ann!" = (some "Ann", false) := by
  decide +kernel

end Memory

end HyChat
