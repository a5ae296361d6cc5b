/-
# Comparison of outputs

The comparator of the judge (`pkg/comparator/comparator.go`): numbers up to a
tolerance, maps by key, slices in order or in any order, and everything else by
`reflect.DeepEqual`.  A nil value is equal to an empty slice.
-/
import JudgePlatform.Library.GoValue

namespace Judge

/-- How outputs are compared. -/
structure CompareConfig where
  mode : String := ""
  floatTolerance : Binary64 := .zero
  orderInsensitive : Bool := false
  requireDeepCopy : Bool := false

def asFloat64 : GoValue → Option Binary64
  | .float x => some x
  | .int _ n => some (.ofInt n)
  | _ => none

/-- `[]interface{}`, `primitive.A` and `primitive.D` values. -/
def toSlice : GoValue → Option (List GoValue)
  | .nilSlice => some []
  | .slice xs => some xs
  | _ => none

def toStringMap : GoValue → Option (List (String × GoValue))
  | .map ms => some ms
  | _ => none

def compareNumbers (expected actual tolerance : Binary64) : Bool :=
  if Binary64.zero.lt tolerance then (expected.sub actual).abs.le tolerance
  else expected.eq actual

/-- Whether a value is nil or an empty slice. -/
def nilOrEmpty : GoValue → Bool
  | .nil => true
  | v => (toSlice v).any List.isEmpty

mutual

def compareValue (tolerance : Binary64) (orderInsensitive : Bool) : GoValue → GoValue → Bool
  | .nil, actual => nilOrEmpty actual
  | expected, .nil => nilOrEmpty expected
  | .float en, actual =>
    match asFloat64 actual with
    | some an => compareNumbers en an tolerance
    | none => false
  | .int _ en, actual =>
    match asFloat64 actual with
    | some an => compareNumbers (.ofInt en) an tolerance
    | none => false
  | .map em, actual =>
    match toStringMap actual with
    | some am => em.length = am.length && compareMembers tolerance orderInsensitive em am
    | none => false
  | .nilSlice, actual => (toSlice actual).any List.isEmpty
  | .slice es, actual =>
    match toSlice actual with
    | some as =>
      es.length = as.length &&
        (if orderInsensitive then compareSlicesUnordered tolerance orderInsensitive es as
        else compareSlices tolerance orderInsensitive es as)
    | none => false
  | expected, actual => expected.deepEqual actual

/-- The loop over the keys of the expected map. -/
def compareMembers (tolerance : Binary64) (orderInsensitive : Bool) :
    List (String × GoValue) → List (String × GoValue) → Bool
  | [], _ => true
  | (k, ev) :: em, am =>
    match GoValue.getKey am k with
    | none => false
    | some av =>
      compareValue tolerance orderInsensitive ev av &&
        compareMembers tolerance orderInsensitive em am

/-- The loop over two slices of one length. -/
def compareSlices (tolerance : Binary64) (orderInsensitive : Bool) :
    List GoValue → List GoValue → Bool
  | [], _ => true
  | _, [] => true
  | ev :: es, av :: as =>
    compareValue tolerance orderInsensitive ev av && compareSlices tolerance orderInsensitive es as

/-- Every expected value takes the first unused actual value that it matches; `actual`
holds the unused ones. -/
def compareSlicesUnordered (tolerance : Binary64) (orderInsensitive : Bool) :
    List GoValue → List GoValue → Bool
  | [], _ => true
  | ev :: es, actual =>
    match actual.findIdx? fun av => compareValue tolerance orderInsensitive ev av with
    | none => false
    | some i => compareSlicesUnordered tolerance orderInsensitive es (actual.eraseIdx i)

end

def compare (expected actual : GoValue) (cfg : CompareConfig) : Bool :=
  let tolerance := if cfg.floatTolerance.lt .zero then .zero else cfg.floatTolerance
  compareValue tolerance cfg.orderInsensitive expected actual

end Judge
