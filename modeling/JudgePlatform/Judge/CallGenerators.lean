/-
# Generated calls

The wrappers of the compiled languages have a hole that `pkg/wrapper/generator.go` fills
with the code that decodes the inputs, calls the function of the user and reports its
output.  There is one builder for each of C++, Go, C and Rust.

* `TypeNames.name` : the name of a type in a language.
* `buildCppCall`, `buildGoCall`, `buildCCall`, `buildRustCall` : the builders.
-/
import JudgePlatform.Judge.Problem
import JudgePlatform.Judge.TypeStrings

namespace Judge

/-! ## Types -/

namespace ParsedType

def kind : ParsedType → String
  | mk kind _ => kind

def element : ParsedType → Option ParsedType
  | mk _ element => element

end ParsedType

/-- What `parsed, _ := ParseType(text)` leaves in `parsed`. -/
def parsedOrZero (text : String) : ParsedType :=
  match parseType text with
  | .ok t => t
  | .error _ => .mk "" none

/-- The names that a language has for types. -/
structure TypeNames where
  number : String
  string : String
  boolean : String
  void : String
  linkedList : String
  tree : String
  graph : String
  array : String → String
  matrix : String → String
  other : String

namespace TypeNames

/-- The name of a kind that is not made from the name of an element. -/
def plain (L : TypeNames) (kind : String) : String :=
  if kind = "number" then L.number
  else if kind = "string" then L.string
  else if kind = "boolean" then L.boolean
  else if kind = "void" then L.void
  else if kind = "linkedlist" then L.linkedList
  else if kind = "tree" then L.tree
  else if kind = "graph" then L.graph
  else L.other

/-- The name of a type.  The mappings of the languages differ in their names only; an array
without an element, which no text parses to, has none. -/
def name (L : TypeNames) : ParsedType → String
  | .mk kind none => L.plain kind
  | .mk kind (some element) =>
    if kind = "array" then L.array (L.name element)
    else if kind = "matrix" then L.matrix (L.name element)
    else L.plain kind

end TypeNames

def cppTypes : TypeNames where
  number := "int"
  string := "std::string"
  boolean := "bool"
  void := "void"
  linkedList := "ListNode*"
  tree := "TreeNode*"
  graph := "Node*"
  array t := "std::vector<" ++ t ++ ">"
  matrix t := "std::vector<std::vector<" ++ t ++ ">>"
  other := "auto"

def goTypes : TypeNames where
  number := "int"
  string := "string"
  boolean := "bool"
  void := ""
  linkedList := "*ListNode"
  tree := "*TreeNode"
  graph := "*Node"
  array t := "[]" ++ t
  matrix t := "[][]" ++ t
  other := "interface\x7b\x7d"

def cTypes : TypeNames where
  number := "int"
  string := "const char*"
  boolean := "bool"
  void := "void"
  linkedList := "struct ListNode*"
  tree := "struct TreeNode*"
  graph := "struct Node*"
  array t := t ++ "*"
  matrix t := t ++ "**"
  other := "void*"

def mapCppType : ParsedType → String := cppTypes.name

def mapGoType : ParsedType → String := goTypes.name

def mapCType : ParsedType → String := cTypes.name

/-- The name of the type that a text spells, or the one for a text that spells none. -/
def typeOr (map : ParsedType → String) (default text : String) : String :=
  match parseType text with
  | .ok t => map t
  | .error _ => default

def cppType : String → String := typeOr mapCppType "auto"

def goType : String → String := typeOr mapGoType "interface\x7b\x7d"

def cType : String → String := typeOr mapCType "int"

/-! ## Arguments -/

def arg (i : ℕ) : String := "arg" ++ toString i

/-- The arguments of a call, separated by commas. -/
def commas (args : List String) : String := ", ".intercalate args

/-- The code for each parameter, in order. -/
def eachParameter (p : Problem) (code : ℕ → String → String) : String :=
  String.join (p.parameters.mapIdx fun i param => code i param.type)

def argNames (p : Problem) : List String := (List.range p.parameters.length).map arg

/-! ## C++ -/

/-- The helper that decodes a linked list, a tree or a graph of numbers; the builders of C++
and Go look for the text itself. -/
def structureHelper (type : String) (ofList ofTree ofGraph : String) : Option String :=
  if type = "linkedlist<number>" then some ofList
  else if type = "tree<number>" then some ofTree
  else if type = "graph<number>" then some ofGraph
  else none

def cppDeclare (i : ℕ) (type : String) : String :=
  "        " ++ cppType type ++ " " ++ arg i ++ " = " ++
    -- the text itself is compared, not the type that it spells
    match structureHelper type "list_from_json" "tree_from_json" "graph_from_json" with
    | some helper => helper ++ "(inputs[" ++ toString i ++ "]);\n"
    | none => "inputs[" ++ toString i ++ "].get<" ++ cppType type ++ ">();\n"

def buildCppCall (p : Problem) (funcName : String) : String :=
  let call := "sol." ++ funcName ++ "(" ++ commas (argNames p) ++ ");\n"
  eachParameter p cppDeclare ++
    (if p.returnType = "void" then
      "        " ++ call ++
        if p.parameters.length = 0 then "        result[\"output\"] = nullptr;\n"
        else "        result[\"output\"] = arg0;\n"
    else
      "        " ++ cppType p.returnType ++ " output = " ++ call ++
        "        result[\"output\"] = output;\n") ++
    "        std::cerr << result.dump() << std::endl;"

/-! ## Go -/

def goDeclare (i : ℕ) (type : String) : String :=
  let input := "payload.Inputs[" ++ toString i ++ "]"
  "\tvar " ++ arg i ++ " " ++ goType type ++ "\n" ++
    match structureHelper type "listFromJSON" "treeFromJSON" "graphFromJSON" with
    | some helper => "\t" ++ arg i ++ " = " ++ helper ++ "(" ++ input ++ ")\n"
    | none =>
      "\tif err := json.Unmarshal(" ++ input ++ ", &" ++ arg i ++ "); err != nil \x7b\n" ++
        "\t\tresult.Error = \"Runtime Error\"\n" ++
        "\t\tfmt.Printf(\"\x7b\\\"error\\\": \\\"Runtime Error\\\", \\\"message\\\": " ++
        "\\\"failed to unmarshal " ++ arg i ++ ": %v\\\"\x7d\\n\", err)\n" ++
        "\t\treturn\n" ++ "\t\x7d\n"

def buildGoCall (p : Problem) (funcName : String) : String :=
  let call := funcName ++ "(" ++ commas (argNames p) ++ ")\n"
  eachParameter p goDeclare ++
    (if p.returnType = "void" then
      "\t" ++ call ++
        if p.parameters.length = 0 then "\tresult.Output = nil\n" else "\tresult.Output = arg0\n"
    else "\toutput := " ++ call ++ "\tresult.Output = output\n") ++
    "\tjsonRes, _ := json.Marshal(result)\n" ++ "\tfmt.Fprintln(os.Stderr, string(jsonRes))\n"

/-! ## C -/

/-- The variables for the sizes of an array or a matrix, with their types. -/
def sizes (name : String) (t : ParsedType) : List (String × String) :=
  if t.kind = "array" then [("int", name ++ "_size")]
  else if t.kind = "matrix" then [("int", name ++ "_rows"), ("int*", name ++ "_cols")]
  else []

/-- The helper for an array or a matrix, by the kind of its elements. -/
def elementHelper (name : String) (t : ParsedType) : String :=
  match t.element with
  | some e =>
    if e.kind = "string" then "string_" ++ name
    else if e.kind = "boolean" then "bool_" ++ name
    else name
  | none => name

/-- The helper that decodes an argument. -/
def cDecoder (t : ParsedType) : Option String :=
  if t.kind = "number" then some "json_object_get_int"
  else if t.kind = "string" then some "json_object_get_string"
  else if t.kind = "boolean" then some "json_object_get_boolean"
  else if t.kind = "linkedlist" then some "list_from_json"
  else if t.kind = "tree" then some "tree_from_json"
  else if t.kind = "graph" then some "graph_from_json"
  else if t.kind = "array" then some (elementHelper "array_from_json" t)
  else if t.kind = "matrix" then some (elementHelper "matrix_from_json" t)
  else none

/-- The helper that encodes the output. -/
def cEncoder (t : ParsedType) : Option String :=
  if t.kind = "number" then some "json_object_new_int"
  else if t.kind = "string" then some "json_object_new_string"
  else if t.kind = "boolean" then some "json_object_new_boolean"
  else if t.kind = "linkedlist" then some "list_to_json"
  else if t.kind = "tree" then some "tree_to_json"
  else if t.kind = "graph" then some "graph_to_json"
  else if t.kind = "array" then some (elementHelper "array_to_json" t)
  else if t.kind = "matrix" then some (elementHelper "matrix_to_json" t)
  else none

def cDeclare (i : ℕ) (type : String) : String :=
  let t := parsedOrZero type
  let declared := "        " ++ cType type ++ " " ++ arg i ++ " = "
  match cDecoder t with
  | none => declared ++ "NULL; // Unsupported type\n"
  | some decoder =>
    String.join ((sizes (arg i) t).map fun v => "        " ++ v.1 ++ " " ++ v.2 ++ ";\n") ++
      declared ++ decoder ++ "(json_object_array_get_idx(inputs, " ++ toString i ++ ")" ++
      String.join ((sizes (arg i) t).map fun v => ", &" ++ v.2) ++ ");\n"

/-- What a call passes for a parameter, with the types of the variables. -/
def cPassed (i : ℕ) (type : String) : List (String × String) :=
  (cType type, arg i) :: sizes (arg i) (parsedOrZero type)

/-- What a call passes for all parameters. -/
def cArguments (p : Problem) : List (String × String) :=
  (p.parameters.mapIdx fun i param => cPassed i param.type).flatten

def jsonAddOutput (returnType varName : String) : String :=
  let t := parsedOrZero returnType
  "        json_object_object_add(result, \"output\", " ++
    match cEncoder t with
    | none => "NULL);\n"
    | some encoder =>
      encoder ++ "(" ++ varName ++ String.join ((sizes "output" t).map fun v => ", " ++ v.2) ++
        "));\n"

def buildCCall (p : Problem) (funcName : String) : String :=
  let passed := (cArguments p).map Prod.snd
  eachParameter p cDeclare ++
    (if p.returnType = "void" then
      "        " ++ funcName ++ "(" ++ commas passed ++ ");\n" ++
        match p.parameters with
        | [] => jsonAddOutput p.returnType "NULL"
        | param0 :: _ =>
          let t := parsedOrZero param0.type
          -- the first argument is reported, with its sizes, in place of a result
          String.join (((sizes "output" t).zip (sizes "arg0" t)).map fun v =>
            "        " ++ v.1.1 ++ " " ++ v.1.2 ++ " = " ++ v.2.2 ++ ";\n") ++
            jsonAddOutput param0.type "arg0"
    else
      let outputs := sizes "output" (parsedOrZero p.returnType)
      String.join (outputs.map fun v =>
        "        " ++ v.1 ++ " " ++ v.2 ++ " = " ++ (if v.1 = "int" then "0" else "NULL") ++
          ";\n") ++
        "        " ++ cType p.returnType ++ " output = " ++ funcName ++ "(" ++
        commas (passed ++ outputs.map fun v => "&" ++ v.2) ++ ");\n" ++
        jsonAddOutput p.returnType "output") ++
    "        fprintf(stderr, \"%s\\n\", json_object_to_json_string(result));"

/-! ## Rust -/

/-- The names of the helpers from and to JSON. -/
def rustHelpers (name : String) : String × String := ("json_to_" ++ name, name ++ "_to_json")

/-- The helpers for an array or a matrix, by the kind of its elements. -/
def rustElementHelpers (name : String) (t : ParsedType) : Option (String × String) :=
  match t.element with
  | some e =>
    if e.kind = "number" then some (rustHelpers (name ++ "_i32"))
    else if e.kind = "string" then some (rustHelpers (name ++ "_string"))
    else if e.kind = "boolean" then some (rustHelpers (name ++ "_bool"))
    else none
  | none => none

def rustJSONHelpers (t : ParsedType) : Option (String × String) :=
  if t.kind = "number" then some (rustHelpers "i32")
  else if t.kind = "string" then some (rustHelpers "string")
  else if t.kind = "boolean" then some (rustHelpers "bool")
  else if t.kind = "linkedlist" then some (rustHelpers "list")
  else if t.kind = "tree" then some (rustHelpers "tree")
  else if t.kind = "graph" then some (rustHelpers "graph")
  else if t.kind = "array" then rustElementHelpers "vec" t
  else if t.kind = "matrix" then rustElementHelpers "matrix" t
  else none

/-- The helpers for the type that a text spells. -/
def rustTypeHelpers (type : String) : Option (String × String) :=
  match parseType type with
  | .ok t => rustJSONHelpers t
  | .error _ => none

def rustUnsupported : String :=
  "    compile_error!(\"this problem uses a type not supported by the Rust judge " ++
    "(only number/string/boolean/array/matrix are supported)\");\n"

/-- The code once each parameter has its helpers, and the output unless there is none. -/
def rustCall (p : Problem) (funcName : String) (params : List (String × String))
    (returnToJSON : String) : String :=
  String.join (params.mapIdx fun i info =>
    "    let mut " ++ arg i ++ " = " ++ info.1 ++ "(&inputs[" ++ toString i ++ "]);\n") ++
    "    let sol = Solution;\n" ++
    if p.returnType = "void" then
      "    sol." ++ funcName ++ "(" ++
        -- the first argument may be changed by a function without a result
        commas ((List.range params.length).map fun i => if i = 0 then "&mut arg0" else arg i) ++
        ");\n" ++
        match params with
        | [] => "    eprintln!(\"\x7b\x7b\\\"output\\\": null\x7d\x7d\");\n"
        | info :: _ =>
          "    eprintln!(\"\x7b\x7b\\\"output\\\": \x7b\x7d\x7d\x7d\", " ++ info.2 ++ "(&arg0));\n"
    else
      "    let output = sol." ++ funcName ++ "(" ++
        commas ((List.range params.length).map arg) ++ ");\n" ++
        "    eprintln!(\"\x7b\x7b\\\"output\\\": \x7b\x7d\x7d\x7d\", " ++ returnToJSON ++ "(&output));\n"

def buildRustCall (p : Problem) (funcName : String) : String :=
  match p.parameters.mapM fun param => rustTypeHelpers param.type with
  | none => rustUnsupported
  | some params =>
    if p.returnType = "void" then rustCall p funcName params ""
    else
      match rustTypeHelpers p.returnType with
      | none => rustUnsupported
      | some helpers => rustCall p funcName params helpers.2

end Judge
