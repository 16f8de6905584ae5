import Separable.Text.Quoted

/-!
# Faults

Everything that can go wrong has a cause, and the cause is a value of `Fault`. The wording of each
cause is in one place, `Fault.message`.

Six families are kept apart by their constructors: a request that does not fit what is registered
(`notAVector` to `unknownName`), a request for something that is not on offer
(`hessianDisabled` to `penaltyHessian`), arithmetic (`divisionByZero`, `overflow`), numbers and
nested lists that an array cannot take up (`integerTooLarge` to `partOfNumber`), buffers and indices
that do not fit each other (`noEntry` to `stretchedBuffer`), and a failure that a term, a
reparameterization or a solver reports itself (`reported`). A failure inside a worker reaches the
caller as `concurrent`, which keeps the cause.

## Main results

* `message_concurrent`: the wrapper speaks with the words of its cause.
-/

namespace Separable

/-- The kind of failure that a term, a reparameterization or a solver reports. -/
inductive Category where
  | value
  | runtime
  | key
  | unsupported
  | concurrent
  /-- Not an ordinary failure: workers do not hold it back. -/
  | fatal
  deriving DecidableEq, Repr

/-- The cause of a failure. -/
inductive Fault where
  /-- The storage is not a one-dimensional array. -/
  | notAVector
  /-- The storage holds elements of another kind than floating-point numbers. -/
  | notFloating (kind : String)
  /-- The storage is registered with another dimension than the one asked for. -/
  | registeredAs (registered : Nat) (asked : Int)
  /-- The dimension asked for is not the length of the storage. -/
  | storageLength (asked : Int) (length : Nat)
  /-- The dimension asked for is not the user dimension of the reparameterization. -/
  | reparamDimension (asked userDimension : Int)
  /-- No variable has this handle. -/
  | unknownHandle (index : Int)
  /-- The storage was never registered. -/
  | unknownStorage
  /-- A term is bound to a wrong number of arguments. -/
  | arity (term : String) (expected given : Nat)
  /-- An argument of a term has a wrong dimension. -/
  | argumentDimension (position : Nat) (term : String) (expected : Int) (actual : Nat)
  /-- A state is not a vector of the right length. -/
  | stateShape (shape : List Nat) (expected : Nat)
  /-- A gradient buffer is not a vector of the right length. -/
  | gradientShape (shape : List Nat) (expected : Nat)
  /-- Fewer workers than one. -/
  | workerCount (count : Int)
  /-- A Hessian in a form that does not exist. -/
  | unknownHessianMode (name : String)
  /-- A second constraint of one name. -/
  | duplicateConstraint (name : String)
  /-- Nothing has this name. -/
  | unknownName (name : String)
  /-- The graph keeps no Hessians. -/
  | hessianDisabled
  /-- A Hessian over a reparameterized variable. -/
  | hessianReparameterized
  /-- The term has no gradient. -/
  | noGradient (term : String)
  /-- The term has no Hessian. -/
  | noHessian (term : String)
  /-- A penalty has no Hessian. -/
  | penaltyHessian
  | divisionByZero
  /-- A power of finite numbers that is too large. -/
  | overflow
  /-- An integer beyond the range of floating-point numbers. -/
  | integerTooLarge
  /-- An integer beyond the widest integers that an array can hold. -/
  | integerTooWide
  /-- An integer beyond the range of a kind of element. -/
  | integerOutOfBounds (n : Int) (kind : String)
  /-- A number that is no number has no integer part. -/
  | notANumberTruncated
  /-- An infinite number has no integer part. -/
  | infinityTruncated
  /-- There is no kind of element of this name. -/
  | unknownKind (name : String)
  /-- A nested list is deeper than an array may have axes. -/
  | tooManyAxes (limit : Nat)
  /-- The parts of a nested list differ beyond these extents. -/
  | unevenParts (shape : List Nat)
  /-- An array with axes takes the place of a single number. -/
  | axesInEntry
  /-- An array without axes has no indices. -/
  | noAxes
  /-- A single number takes the place of all items of a list. -/
  | itemsFromNumber
  /-- A single number has no items that can be replaced. -/
  | itemsOfNumber
  /-- A single number has no items that can be taken out. -/
  | partOfNumber
  /-- A list has no such entry. -/
  | noEntry
  /-- A vector of this size has no entry at the index. -/
  | noEntryAt (index size : Nat)
  /-- A buffer of negative length. -/
  | negativeLength
  /-- A buffer and what is to be written into it differ in size. -/
  | sizeMismatch
  /-- An array of one shape cannot be repeated to fill one of another shape. -/
  | shapeMismatch (given wanted : List Nat)
  /-- Row, column and value lists of a sparse matrix differ in length. -/
  | tripletLengths
  /-- An extent of a sparse matrix is negative. -/
  | negativeExtent
  /-- An index along an axis of a sparse matrix is not below the extent. -/
  | indexAbove (axis : Nat) (index : Int) (extent : Nat)
  /-- An index along an axis of a sparse matrix is negative. -/
  | indexBelow (axis : Nat) (index : Int)
  /-- Vectors of these lengths cannot be added. -/
  | unequalLengths (left right : Nat)
  /-- Adding a vector of this length would stretch a buffer of one entry. -/
  | stretchedBuffer (length : Nat)
  /-- A sum of double precision would be written into elements of this kind. -/
  | unsafeSum (kind : String)
  /-- A failure that a term, a reparameterization or a solver reports. -/
  | reported (category : Category) (text : String)
  /-- A failure while workers were running. -/
  | concurrent (cause : Fault)
  deriving DecidableEq, Repr

/-- Something that a caller supplies. It may be unusable, and then it stands for the fault that
whoever wants it meets. -/
abbrev Supplied (β : Type) := Except Fault β

namespace Fault

/-- A list of extents: `()`, `(3,)`, `(1, 2)`. -/
def shapeText : List Nat → String
  | [] => "()"
  | [n] => s!"({n},)"
  | shape => "(" ++ ", ".intercalate (shape.map toString) ++ ")"

/-- The same without blanks: `()`, `(3,)`, `(1,2)`. -/
def denseShapeText : List Nat → String
  | [n] => s!"({n},)"
  | shape => "(" ++ ",".intercalate (shape.map toString) ++ ")"

/-- The words for a cause. -/
def message : Fault → String
  | notAVector => "Variable storage must be a 1D numpy array."
  | notFloating kind => s!"Variable storage must be floating point, got {kind}."
  | registeredAs registered asked =>
    s!"Variable already registered with dimension {registered}, got {asked}."
  | storageLength asked length =>
    s!"Dimension {asked} does not match storage of length {length}."
  | reparamDimension asked userDimension =>
    s!"Dimension {asked} does not match the change of variables ({userDimension})."
  | unknownHandle index => s!"Unknown variable VariableId(index={index})."
  | unknownStorage => "Storage was never registered as a variable."
  | arity term expected given => s!"{term} expects {expected} arguments, got {given}."
  | argumentDimension position term expected actual =>
    s!"Argument {position} of {term} has dimension {expected}," ++
      s!" but the variable has dimension {actual}."
  | stateShape shape expected =>
    s!"State has shape {shapeText shape}, expected ({expected},)."
  | gradientShape shape expected =>
    s!"Gradient buffer has shape {shapeText shape}, expected ({expected},)."
  | workerCount count => s!"Invalid number of workers: {count}."
  | unknownHessianMode name => s!"Unknown Hessian mode: {name}."
  | duplicateConstraint name => s!"Constraint {Text.quoted name} already exists."
  | unknownName name => Text.quoted name
  | hessianDisabled => "Hessian computation is not enabled."
  | hessianReparameterized => "Hessians are not supported for reparameterized variables."
  | noGradient term => s!"{term} does not provide a gradient."
  | noHessian term => s!"{term} does not provide a Hessian."
  | penaltyHessian => "Penalty terms do not provide a Hessian."
  | divisionByZero => "float division by zero"
  | overflow => "(34, 'Numerical result out of range')"
  | integerTooLarge => "int too large to convert to float"
  | integerTooWide => "Python int too large to convert to C long"
  | integerOutOfBounds n kind => s!"Python integer {n} out of bounds for {kind}"
  | notANumberTruncated => "cannot convert float NaN to integer"
  | infinityTruncated => "cannot convert float infinity to integer"
  | unknownKind name => s!"data type {Text.quoted name} not understood"
  | tooManyAxes limit =>
    "setting an array element with a sequence. The requested array would exceed the maximum" ++
      s!" number of dimension of {limit}."
  | unevenParts shape =>
    "setting an array element with a sequence. The requested array has an inhomogeneous shape" ++
      s!" after {shape.length} dimensions. The detected shape was {shapeText shape}" ++
      " + inhomogeneous part."
  | axesInEntry => "only 0-dimensional arrays can be converted to Python scalars"
  | noAxes => "too many indices for array: array is 0-dimensional, but 1 were indexed"
  | itemsFromNumber => "can only assign an iterable"
  | itemsOfNumber => "'float' object does not support item assignment"
  | partOfNumber => "'float' object is not subscriptable"
  | noEntry => "list index out of range"
  | noEntryAt index size => s!"index {index} is out of bounds for axis 0 with size {size}"
  | negativeLength => "negative dimensions are not allowed"
  | sizeMismatch => ""
  | shapeMismatch given wanted =>
    s!"could not broadcast input array from shape {denseShapeText given}" ++
      s!" into shape {denseShapeText wanted}"
  | tripletLengths => "all index and data arrays must have the same length"
  | negativeExtent => "'shape' elements cannot be negative"
  | indexAbove axis index extent =>
    s!"axis {axis} index {index} exceeds matrix dimension {extent}"
  | indexBelow axis index => s!"negative axis {axis} index: {index}"
  | unequalLengths left right =>
    s!"operands could not be broadcast together with shapes ({left},) ({right},) ({left},) "
  | stretchedBuffer length =>
    "non-broadcastable output operand with shape (1,) doesn't match the broadcast shape " ++
      s!"({length},)"
  | unsafeSum kind =>
    s!"Cannot cast ufunc 'add' output from dtype('float64') to dtype({Text.quoted kind})" ++
      " with casting rule 'same_kind'"
  | reported .key text => Text.quoted text
  | reported _ text => text
  | concurrent cause => cause.message

@[simp] theorem message_concurrent (cause : Fault) :
    (concurrent cause).message = cause.message := rfl

/-- Whether workers let the failure through at once instead of holding it back. -/
def isFatal : Fault → Bool
  | reported .fatal _ => true
  | _ => false

end Fault

end Separable
