import Mathlib.Data.List.TakeWhile

/-!
# Event streams

How a client reads `text/event-stream`, one character after another: a line ends with a line feed, a
carriage return or both, the lines of a block set the name and the data of an event, and an empty
line dispatches it.

**The round trip**: an event whose name and data are lines is read back as it was written, and so is
any number of events, one after another (`feed_wire`).
-/

set_option autoImplicit false

namespace HyChat.Lib.EventStream

structure Event where
  name : String
  data : String
  deriving DecidableEq

/-- The unfinished line, whether a line feed would belong to the line before it, and the name and
    the data of the unfinished block -/
structure Parser where
  line : List Char
  afterCr : Bool
  name : List Char
  data : List Char
  deriving DecidableEq

def Parser.fresh : Parser := ⟨[], false, [], []⟩

/-- The name of a field and its value, without one blank at its beginning -/
def splitField (line : List Char) : List Char × List Char :=
  match line.dropWhile (· != ':') with
  | [] => (line, [])
  | _ :: ' ' :: value => (line.takeWhile (· != ':'), value)
  | _ :: value => (line.takeWhile (· != ':'), value)

/-- A line that is not empty; the other fields, and comments, set nothing. -/
def Parser.field (p : Parser) (line : List Char) : Parser :=
  let (name, value) := splitField line
  if name = "event".toList then { p with name := value }
  else if name = "data".toList then { p with data := p.data ++ value ++ ['\n'] }
  else p

/-- A block without data dispatches nothing. -/
def Parser.dispatch (p : Parser) : Option Event :=
  if p.data = [] then none
  else some ⟨if p.name = [] then "message" else String.ofList p.name, String.ofList p.data.dropLast⟩

def Parser.endLine (p : Parser) (afterCr : Bool) : Parser × Option Event :=
  if p.line = [] then ({ Parser.fresh with afterCr }, p.dispatch)
  else ({ p.field p.line with line := [], afterCr }, none)

def Parser.step (p : Parser) (c : Char) : Parser × Option Event :=
  if c = '\n' then if p.afterCr then ({ p with afterCr := false }, none) else p.endLine false
  else if c = '\r' then p.endLine true
  else ({ p with line := p.line ++ [c], afterCr := false }, none)

/-- What is read from a text; an unfinished block dispatches nothing. -/
def Parser.feed : Parser → List Char → Parser × List Event
  | p, [] => (p, [])
  | p, c :: rest =>
      let (p, event) := p.step c
      let (p, events) := p.feed rest
      (p, event.toList ++ events)

/-- The events of a whole stream -/
def events (stream : String) : List Event := (Parser.fresh.feed stream.toList).2

/-- The block of an event -/
def Event.wire (e : Event) : String := s!"event: {e.name}\ndata: {e.data}\n\n"

/-- The text has no line break. -/
def OneLine (text : List Char) : Prop := ∀ c ∈ text, c ≠ '\n' ∧ c ≠ '\r'

instance (text : List Char) : Decidable (OneLine text) :=
  List.decidableBAll (fun c : Char => c ≠ '\n' ∧ c ≠ '\r') text

/-- An event that can be written as one block -/
structure Event.Fits (e : Event) : Prop where
  name : OneLine e.name.toList
  named : e.name ≠ ""
  data : OneLine e.data.toList

variable {p : Parser} {text rest : List Char}

/-- Characters that end no line extend it. -/
theorem feed_open (htext : OneLine text) (p : Parser) :
    p.feed (text ++ rest) =
      { p with line := p.line ++ text, afterCr := p.afterCr && text.isEmpty }.feed rest := by
  induction text generalizing p with
  | nil => simp
  | cons c text ih =>
    obtain ⟨hlf, hcr⟩ := htext c List.mem_cons_self
    have hrest : OneLine text := fun c hc => htext c (List.mem_cons_of_mem _ hc)
    rw [List.cons_append, Parser.feed, Parser.step, if_neg hlf, if_neg hcr]
    simp only [ih hrest, Option.toList_none, List.nil_append, Bool.false_and, List.append_assoc,
      List.singleton_append, List.isEmpty_cons, Bool.and_false]

/-- What a line sets does not depend on the line that was being read. -/
theorem field_congr (p : Parser) (line : List Char) (afterCr : Bool) :
    ({ ({ p with line, afterCr } : Parser).field text with line := [], afterCr := false } : Parser) =
      { p.field text with line := [], afterCr := false } := by
  simp only [Parser.field]
  split
  · rfl
  · split <;> rfl

/-- A line that is not empty, and its line feed -/
theorem feed_line (htext : OneLine text) (hne : text ≠ []) (hline : p.line = []) :
    p.feed (text ++ '\n' :: rest) =
      { p.field text with line := [], afterCr := false }.feed rest := by
  have hcr : (p.afterCr && text.isEmpty) = false := by simp [hne]
  rw [feed_open htext, hcr, hline, List.nil_append, Parser.feed, Parser.step, if_pos rfl]
  simp only [Bool.false_eq_true, if_false, Parser.endLine, hne, Option.toList_none, List.nil_append]
  rw [field_congr]

/-- The empty line that ends a block -/
theorem feed_end (hline : p.line = []) (hcr : p.afterCr = false) :
    p.feed ('\n' :: rest) =
      ((Parser.fresh.feed rest).1, p.dispatch.toList ++ (Parser.fresh.feed rest).2) := by
  rw [Parser.feed, Parser.step, if_pos rfl, hcr]
  simp only [Bool.false_eq_true, if_false, Parser.endLine, hline, if_true]
  rfl

theorem field_event (p : Parser) (value : List Char) :
    p.field ("event: ".toList ++ value) = { p with name := value } := rfl

theorem field_data (p : Parser) (value : List Char) :
    p.field ("data: ".toList ++ value) = { p with data := p.data ++ value ++ ['\n'] } := rfl

theorem OneLine.append {first second : List Char} (hfirst : OneLine first)
    (hsecond : OneLine second) : OneLine (first ++ second) :=
  List.forall_mem_append.mpr ⟨hfirst, hsecond⟩

/-- **One event** is read back. -/
theorem feed_event {e : Event} (he : e.Fits) (rest : List Char) :
    Parser.fresh.feed (e.wire.toList ++ rest) =
      ((Parser.fresh.feed rest).1, e :: (Parser.fresh.feed rest).2) := by
  have hwire : e.wire.toList ++ rest = ("event: ".toList ++ e.name.toList) ++ '\n' ::
      (("data: ".toList ++ e.data.toList) ++ '\n' :: '\n' :: rest) := by
    have hwire : e.wire = "event: " ++ e.name ++ "\ndata: " ++ e.data ++ "\n\n" := rfl
    simp [hwire]
  have hevent : OneLine "event: ".toList := by decide
  have hdata : OneLine "data: ".toList := by decide
  have hname : e.name.toList ≠ [] := fun h => he.named (String.toList_eq_nil_iff.mp h)
  rw [hwire, feed_line (hevent.append he.name) (by simp) rfl, field_event,
    feed_line (hdata.append he.data) (by simp) rfl, field_data, feed_end rfl rfl]
  simp [Parser.dispatch, Parser.fresh, hname]

/-- **Any number of events**, one after another, are read back. -/
theorem feed_wire {es : List Event} (hes : ∀ e ∈ es, e.Fits) :
    events (String.join (es.map Event.wire)) = es := by
  have hfeed : Parser.fresh.feed (es.flatMap fun e => e.wire.toList) = (Parser.fresh, es) := by
    induction es with
    | nil => rfl
    | cons e es ih =>
      rw [List.flatMap_cons, feed_event (hes e List.mem_cons_self),
        ih fun e he => hes e (List.mem_cons_of_mem _ he)]
  have hjoin : (String.join (es.map Event.wire)).toList = es.flatMap fun e => e.wire.toList := by
    rw [String.toList_join, List.flatMap_map]
  rw [events, hjoin, hfeed]

end HyChat.Lib.EventStream
