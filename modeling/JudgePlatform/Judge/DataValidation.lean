/-
# Validation of data

`validateData` (`utils/typeValidator.mjs`), with which the service checks the inputs and
the expected value of a test against the type strings of its problem.
-/
import JudgePlatform.Judge.TypeStrings
import JudgePlatform.Library.JsValue

namespace Judge

open Bracketed

/-- `typeof`. -/
def typeOf : Option JsValue → String
  | none => "undefined"
  | some (.bool _) => "boolean"
  | some (.num _) => "number"
  | some (.str _) => "string"
  | some _ => "object"

/-- The loop over the items of an array: the error of the first that is not valid. -/
def validateItems (check : JsValue → Except String Unit) (text : ℕ → String → String) :
    ℕ → List JsValue → Except String Unit
  | _, [] => .ok ()
  | i, x :: xs =>
    match check x with
    | .error e => .error (text i e)
    | .ok () => validateItems check text (i + 1) xs

/-- The loop over the rows of an array of arrays. -/
def validateRows (check : JsValue → Except String Unit) (notArray : ℕ → String)
    (text : ℕ → ℕ → String → String) : ℕ → List JsValue → Except String Unit
  | _, [] => .ok ()
  | i, .arr row :: rows =>
    match validateItems check (text i) 0 row with
    | .error e => .error e
    | .ok () => validateRows check notArray text (i + 1) rows
  | i, _ :: _ => .error (notArray i)

/-- A check that lets null through. -/
def orNull (check : JsValue → Except String Unit) : JsValue → Except String Unit
  | .null => .ok ()
  | x => check x

def index (i : ℕ) : String := "[" ++ Text.itoa i ++ "]"

/-- `validateData`: what it returns is valid, or has an error.  A type string that is
`undefined` is read like an empty one. -/
def validateData (data : Option JsValue) (typeStr : Option String) : Except String Unit :=
  match _hmatch : capture jsDot (trim jsSpace (typeStr.getD "").toList) with
  | none => .error ("Invalid type string: " ++ typeStr.getD "undefined")
  | some (kind, inner) =>
    let check (x : JsValue) : Except String Unit :=
      match inner with
      | none => .error "Invalid type string: undefined"
      | some inner => validateData (some x) (some (String.ofList inner))
    match String.ofList kind with
    | "number" =>
      if data matches some (.num _) then .ok ()
      else .error ("Expected number, got " ++ typeOf data)
    | "string" =>
      if data matches some (.str _) then .ok ()
      else .error ("Expected string, got " ++ typeOf data)
    | "boolean" =>
      if data matches some (.bool _) then .ok ()
      else .error ("Expected boolean, got " ++ typeOf data)
    | "void" =>
      match data with
      | none => .ok ()
      | some .null => .ok ()
      | some (.str "") => .ok ()
      | _ => .error ("Expected void (null/empty), got " ++ typeOf data)
    | "array" =>
      match data with
      | some (.arr xs) =>
        validateItems check (fun i e => "Array item at " ++ index i ++ ": " ++ e) 0 xs
      | _ => .error ("Expected array, got " ++ typeOf data)
    | "matrix" =>
      match data with
      | some (.arr rows) =>
        validateRows check (fun i => "Matrix row at " ++ index i ++ " is not an array")
          (fun i j e => "Matrix item at " ++ index i ++ index j ++ ": " ++ e) 0 rows
      | _ => .error ("Expected matrix (array), got " ++ typeOf data)
    | "tree" =>
      match data with
      | some (.arr xs) =>
        validateItems (orNull check) (fun i e => "Tree node at " ++ index i ++ ": " ++ e) 0 xs
      | _ => .error ("Expected tree representation as array, got " ++ typeOf data)
    | "linkedlist" =>
      match data with
      | some (.arr xs) =>
        validateItems check (fun i e => "Linked list node at " ++ index i ++ ": " ++ e) 0 xs
      | _ => .error ("Expected linked list representation as array, got " ++ typeOf data)
    | "graph" =>
      match data with
      | some (.arr rows) =>
        validateRows check
          (fun i => "Graph adjacency list at " ++ index i ++ " is not an array")
          (fun i j e => "Graph neighbor value at " ++ index i ++ index j ++ ": " ++ e) 0 rows
      | _ =>
        .error ("Expected graph representation as adjacency list (array), got " ++ typeOf data)
    | kind => .error ("Unsupported validation for kind: " ++ kind)
termination_by (typeStr.getD "").toList.length
decreasing_by
  simp only [Option.getD_some, String.toList_ofList]
  exact (length_lt_of_capture _hmatch).trans_le (length_trim_le jsSpace _)

end Judge
