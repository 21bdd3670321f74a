import HyChat.Lib.Json
import HyChat.Lib.Text

/-!
# Texts as JavaScript makes them

`JSON.stringify` with an indentation, and `trim`, whose notion of white space is not that of Python.
Without an indentation `JSON.stringify` prints what `dumps` prints.
-/

set_option autoImplicit false

namespace HyChat

namespace Lib.Json

/-- A new line, indented by two blanks for each level -/
def newline (depth : Nat) : List Char := '\n' :: List.replicate (2 * depth) ' '

mutual
/-- `JSON.stringify(value, null, 2)` -/
def indented (depth : Nat) : Json → List Char
  | .arr xs => '[' :: indentedList depth xs
  | .obj kvs => '{' :: indentedFields depth kvs
  | j => j.text
termination_by structural j => j

def indentedList (depth : Nat) : List Json → List Char
  | [] => [']']
  | x :: xs => newline (depth + 1) ++ (x.indented (depth + 1) ++ indentedListTail depth xs)
termination_by structural xs => xs

def indentedListTail (depth : Nat) : List Json → List Char
  | [] => newline depth ++ [']']
  | x :: xs => ',' :: (newline (depth + 1) ++ (x.indented (depth + 1) ++ indentedListTail depth xs))
termination_by structural xs => xs

def indentedFields (depth : Nat) : List (String × Json) → List Char
  | [] => ['}']
  | (k, x) :: xs =>
      newline (depth + 1) ++ (quote k ++ ':' :: ' ' :: (x.indented (depth + 1) ++
        indentedFieldsTail depth xs))
termination_by structural xs => xs

def indentedFieldsTail (depth : Nat) : List (String × Json) → List Char
  | [] => newline depth ++ ['}']
  | (k, x) :: xs =>
      ',' :: (newline (depth + 1) ++ (quote k ++ ':' :: ' ' :: (x.indented (depth + 1) ++
        indentedFieldsTail depth xs)))
termination_by structural xs => xs
end

end Lib.Json

namespace Lib.Js

/-- White space and line terminators -/
def isSpace (c : Char) : Bool :=
  let n := c.toNat
  (9 ≤ n && n ≤ 13) || n == 32 || n == 0xa0 || n == 0x1680 || (0x2000 ≤ n && n ≤ 0x200a) ||
    n == 0x2028 || n == 0x2029 || n == 0x202f || n == 0x205f || n == 0x3000 || n == 0xfeff

/-- `trim` -/
def trim (text : List Char) : List Char := stripWhile isSpace text

end Lib.Js

end HyChat
