import HyChat.Lib.Walk

/-!
# What the page says about an error

`getKnownStreamErrorInfo` looks for known phrases in everything that can be read out of a thrown
value. `collectErrorText` reads the value recursively: a plain object or an array is read once,
since it is remembered in a set, and an `Error` is read for its name, message and cause each time.

The objects are the nodes of a finite graph; strings and other values without parts stand in the
references themselves. The recursion takes fuel, one unit for each object on the way, and that it
ends means that some amount of fuel is enough.

Two things can keep the page from its message, and they are apart here. The recursion need not end,
which is a matter of the graph alone: the collection is a walk, and the library of walks says when a
walk ends and when it meets each node once. And `String(error)` may throw, for an object whose
`toString` is no function or does not give a primitive value; only the thrown value itself is
printed this way, so this is a matter of that one object. Getters and proxies, which may do anything
when they are read, are not modelled.
-/

set_option autoImplicit false

namespace HyChat

open Lib Walk

namespace Frontend

/-- A value that was thrown or is held by an object. `other` is a number, a boolean, a bigint, a
    symbol or a function, with its `String(…)`. -/
inductive JsValue (ι : Type)
  | null
  | undefined
  | text (s : String)
  | other (s : String)
  | ref (i : ι)
  deriving DecidableEq

structure JsError (ι : Type) where
  name : String
  message : String
  code : Option (JsValue ι)
  cause : JsValue ι

/-- An `Error`, or another object with its enumerable entries -/
inductive JsObject (ι : Type)
  | error (e : JsError ι)
  | plain (entries : List (String × JsValue ι))

/-- The objects that can be reached, and `String(…)` of those that are no `Error`, unless it
    throws -/
structure JsHeap (ι : Type) where
  object : ι → JsObject ι
  objectText : ι → Option String

variable {ι : Type}

def adminContactText : String := "如果权限不够，你可以咨询管理员（微信：Hy_284970670）。"

/-- Whether the text contains the phrase -/
def containsText (phrase text : List Char) : Bool := text.tails.any phrase.isPrefixOf

def appendAdminContact (message : String) : String :=
  if containsText "Hy_284970670".toList message.toList then message
  else message ++ "\n\n" ++ adminContactText

/-- The objects a value names -/
def JsValue.refs : JsValue ι → List ι
  | .ref i => [i]
  | _ => []

/-- The objects that are read for an object: the cause of an `Error`, or all entries -/
def JsObject.reads : JsObject ι → List ι
  | .error e => e.cause.refs
  | .plain entries => entries.flatMap fun entry => entry.2.refs

namespace JsHeap

def reads (heap : JsHeap ι) (i : ι) : List ι := (heap.object i).reads

end JsHeap

variable [DecidableEq ι]

/-- An object that is read, beginning with the thrown value -/
def Read (heap : JsHeap ι) (error : JsValue ι) (i : ι) : Prop :=
  Reachable heap.reads error.refs i

end Frontend

end HyChat
