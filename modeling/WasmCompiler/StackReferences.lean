import WasmCompiler.DoublyLinkedList
import Mathlib.Data.Nat.Basic

/-!
# References to Stack Elements

The compiler stack keeps, for every storage a value can live in, the list of the stack
elements that refer to it, so that all copies of a variable are found when its storage is
needed. The list is threaded through the elements (`prevOccurrence`, `nextOccurrence`), and
`referencesToLastOccurrenceOnStack` holds its first element. All temporary stack slots share
one entry: there the elements of one `stackFramePosition` form a group, and
`nextLowerTempStack` leads from the first element of a group to the first element of the
group with the next lower position.

This file embeds `Common::addReference`, `Common::removeReference` and the operations that
use them (`Common.cpp`). Stack nodes are addressed by numbers. The two loops over groups
take fuel; a failed assertion of the source is `none`.
-/

namespace WasmCompiler

/-! ### Stack elements -/

/-- Where a calculation result is stored. -/
inductive ResultLocation where
  | register (reg : ℕ)
  | stackMemory (stackFramePosition : ℕ)
  | linkData (linkDataOffset : ℕ)
  deriving DecidableEq, Repr

/-- The data of a stack element, by its base type. -/
inductive ElementData where
  | invalid
  | scratchRegister (reg : ℕ)
  | tempResult (resultLocation : ResultLocation) (referencePosition : ℕ)
  | savedLocal (localIdx : ℕ)
  | constant
  | local_ (localIdx : ℕ)
  | global (globalIdx : ℕ)
  | deferredAction
  /-- A block, a loop, an if-block or a skip. -/
  | structural
  deriving DecidableEq, Repr

namespace ElementData

/-- Whether this is a variable, that is, an element that can be referenced. -/
def isVariable : ElementData → Bool
  | scratchRegister _ | tempResult _ _ | savedLocal _ | local_ _ | global _ => true
  | _ => false

/-- Whether this is a result in stack memory. -/
def isStackMemory : ElementData → Bool
  | tempResult (.stackMemory _) _ => true
  | _ => false

/-- The first word of the location union: the stack frame position of a result in stack
memory. -/
def stackFramePosition : ElementData → ℕ
  | scratchRegister reg => reg
  | tempResult (.register reg) _ => reg
  | tempResult (.stackMemory stackFramePosition) _ => stackFramePosition
  | tempResult (.linkData linkDataOffset) _ => linkDataOffset
  | savedLocal localIdx => localIdx
  | local_ localIdx => localIdx
  | global globalIdx => globalIdx
  | _ => 0

end ElementData

/-- The links of an element to other elements with the same reference. -/
structure IndexData where
  prevOccurrence : Option ℕ
  nextOccurrence : Option ℕ
  nextLowerTempStack : Option ℕ
  deriving DecidableEq, Repr

/-- A stack element; `parent` and `sibling` are its place in the tree of deferred actions. -/
structure StackElement where
  data : ElementData
  indexData : IndexData
  parent : Option ℕ
  sibling : Option ℕ
  deriving DecidableEq, Repr

/-- The sizes behind the layout of the reference table. -/
structure ReferenceMap where
  totalNumRegs : ℕ
  numLocals : ℕ
  numGlobals : ℕ
  deriving DecidableEq, Repr

namespace ReferenceMap

/-- The entry of an element: registers come first, then locals, globals, saved locals and
the one entry of the temporary stack slots, which its elements carry with them. -/
def getReferencePosition (m : ReferenceMap) : ElementData → ℕ
  | .scratchRegister reg => reg
  | .local_ localIdx => m.totalNumRegs + localIdx
  | .global globalIdx => m.totalNumRegs + m.numLocals + globalIdx
  | .savedLocal localIdx => m.totalNumRegs + m.numLocals + m.numGlobals + localIdx
  | .tempResult _ referencePosition => referencePosition
  | _ => 0

/-- The entry of the temporary stack slots. -/
def getStackMemoryReferencePosition (m : ReferenceMap) : ℕ :=
  m.totalNumRegs + m.numLocals + m.numGlobals + m.numLocals

end ReferenceMap

/-! ### The compiler stack -/

/-- The compiler stack with the references to its elements. -/
structure CompilerStack where
  /-- The nodes of the allocator. -/
  elements : ℕ → StackElement
  /-- The nodes on the stack, from the bottom up. -/
  stack : List ℕ
  referencesToLastOccurrenceOnStack : ℕ → Option ℕ

/-- A place that holds the first element of a list: an entry of the reference table, or the
`nextLowerTempStack` of the first element of a group. -/
inductive GroupReference where
  | majorReference (position : ℕ)
  | nextLowerTempStack (node : ℕ)
  deriving DecidableEq, Repr

namespace CompilerStack

/-- The data of a node. -/
def data (s : CompilerStack) (n : ℕ) : ElementData := (s.elements n).data

/-- The link to the previous occurrence. -/
def prev (s : CompilerStack) (n : ℕ) : Option ℕ := (s.elements n).indexData.prevOccurrence

/-- The link to the next occurrence. -/
def next (s : CompilerStack) (n : ℕ) : Option ℕ := (s.elements n).indexData.nextOccurrence

/-- The position by which temporary stack slots are ordered. -/
def position (s : CompilerStack) (n : ℕ) : ℕ := (s.data n).stackFramePosition

/-- The content of a reference. -/
def read (s : CompilerStack) : GroupReference → Option ℕ
  | .majorReference position => s.referencesToLastOccurrenceOnStack position
  | .nextLowerTempStack node => (s.elements node).indexData.nextLowerTempStack

/-- Change the links of a node. -/
def modifyIndexData (s : CompilerStack) (n : ℕ) (f : IndexData → IndexData) : CompilerStack :=
  { s with
    elements := Function.update s.elements n
      { s.elements n with indexData := f (s.elements n).indexData } }

/-- Set the link to the previous occurrence. -/
def setPrev (s : CompilerStack) (n : ℕ) (v : Option ℕ) : CompilerStack :=
  s.modifyIndexData n fun i => { i with prevOccurrence := v }

/-- Set the link to the next occurrence. -/
def setNext (s : CompilerStack) (n : ℕ) (v : Option ℕ) : CompilerStack :=
  s.modifyIndexData n fun i => { i with nextOccurrence := v }

/-- Set a reference. -/
def write (s : CompilerStack) (a : GroupReference) (v : Option ℕ) : CompilerStack :=
  match a with
  | .majorReference position =>
      { s with
        referencesToLastOccurrenceOnStack :=
          Function.update s.referencesToLastOccurrenceOnStack position v }
  | .nextLowerTempStack node =>
      s.modifyIndexData node fun i => { i with nextLowerTempStack := v }

/-! ### Adding a reference -/

/-- Walk down the groups to the place of an element whose position is at most that of the
group at `pTopGroupReference`, and link it to the group below. -/
def findGroupToAdd (element : ℕ) :
    ℕ → CompilerStack → GroupReference → ℕ → Option (CompilerStack × GroupReference)
  | 0, _, _, _ => none
  | fuel + 1, s, pTopGroupReference, targetedTopElement =>
      if s.position element = s.position targetedTopElement then
        some (s.write (.nextLowerTempStack element)
          (s.read (.nextLowerTempStack targetedTopElement)), pTopGroupReference)
      else if s.position targetedTopElement < s.position element then none
      else
        let pTopGroupReference := .nextLowerTempStack targetedTopElement
        match s.read pTopGroupReference with
        | none => some (s.write (.nextLowerTempStack element) none, pTopGroupReference)
        | some nextTargetedTopElement =>
            if s.position nextTargetedTopElement < s.position element then
              some ((s.write (.nextLowerTempStack element) (some nextTargetedTopElement)).write
                pTopGroupReference none, pTopGroupReference)
            else findGroupToAdd element fuel s pTopGroupReference nextTargetedTopElement

/-- Find the reference under which an element is to be listed; a new group is linked to the
group below it, and its reference emptied. -/
def prepareGroup (fuel : ℕ) (s : CompilerStack) (element : ℕ)
    (majorReference : GroupReference) : Option (CompilerStack × GroupReference) :=
  if (s.data element).isStackMemory then
    match s.read majorReference with
    | none => some (s.write (.nextLowerTempStack element) none, majorReference)
    | some targetedTopElement =>
        if s.position targetedTopElement < s.position element then
          some ((s.write (.nextLowerTempStack element) (some targetedTopElement)).write
            majorReference none, majorReference)
        else findGroupToAdd element fuel s majorReference targetedTopElement
  else some (s, majorReference)

/-- List an element in front of the elements of a reference. -/
def linkTop (s : CompilerStack) (element : ℕ) (pTopGroupReference : GroupReference) :
    CompilerStack :=
  let s := s.setNext element none
  let s := s.setPrev element (s.read pTopGroupReference)
  let s :=
    match s.read pTopGroupReference with
    | none => s
    | some previousTopElement => s.setNext previousTopElement (some element)
  s.write pTopGroupReference (some element)

/-- Add an element to the list of its reference. Constants have none. -/
def addReference (m : ReferenceMap) (fuel : ℕ) (s : CompilerStack) (element : ℕ) :
    Option CompilerStack :=
  if s.data element = .constant then some s
  else if (s.data element).isVariable then do
    let majorReference := .majorReference (m.getReferencePosition (s.data element))
    let (s, pTopGroupReference) ← prepareGroup fuel s element majorReference
    some (s.linkTop element pTopGroupReference)
  else none

/-! ### Removing a reference -/

/-- Walk down the groups to the one of an element's position. -/
def findGroupToRemove (s : CompilerStack) (element : ℕ) :
    ℕ → GroupReference → Option GroupReference
  | 0, _ => none
  | fuel + 1, pTopGroupReference =>
      match s.read pTopGroupReference with
      | none => none
      | some targetedTopElement =>
          if s.position element = s.position targetedTopElement then some pTopGroupReference
          else if s.position targetedTopElement < s.position element then none
          else findGroupToRemove s element fuel (.nextLowerTempStack targetedTopElement)

/-- Link the next occurrence of an element past it. -/
def unlinkNext (s : CompilerStack) (element : ℕ) : CompilerStack :=
  match s.next element with
  | none => s
  | some nextElement => s.setPrev nextElement (s.prev element)

/-- Link the previous occurrence of an element past it. -/
def unlinkPrev (s : CompilerStack) (element : ℕ) : CompilerStack :=
  match s.prev element with
  | none => s
  | some prevElement => s.setNext prevElement (s.next element)

/-- If an element is the first one at a reference, the previous occurrence takes its place
and its link to the next lower group. -/
def removeTop (s : CompilerStack) (element : ℕ) (pTopGroupReference : GroupReference) :
    CompilerStack :=
  if s.read pTopGroupReference = some element then
    match s.prev element with
    | none => s.write pTopGroupReference none
    | some prevElement =>
        let s :=
          if (s.data element).isStackMemory then
            s.write (.nextLowerTempStack prevElement) (s.read (.nextLowerTempStack element))
          else s
        s.write pTopGroupReference (some prevElement)
  else s

/-- Take an element that is not alone out of the list at a reference. -/
def unlink (s : CompilerStack) (element : ℕ) (pTopGroupReference : GroupReference) :
    CompilerStack :=
  ((s.unlinkNext element).unlinkPrev element).removeTop element pTopGroupReference

/-- Take an element out of the list at a reference. -/
def removeFromGroup (s : CompilerStack) (element : ℕ) (pTopGroupReference : GroupReference) :
    Option CompilerStack :=
  if s.prev element = none ∧ s.next element = none then
    if s.read pTopGroupReference = some element then
      some (s.write pTopGroupReference
        (if (s.data element).isStackMemory then s.read (.nextLowerTempStack element) else none))
    else none
  else some (s.unlink element pTopGroupReference)

/-- Remove an element from the list of its reference. Constants, deferred actions and
invalid elements have none. -/
def removeReference (m : ReferenceMap) (fuel : ℕ) (s : CompilerStack) (element : ℕ) :
    Option CompilerStack :=
  if s.data element = .constant ∨ s.data element = .invalid ∨
      s.data element = .deferredAction then some s
  else if (s.data element).isVariable then do
    let majorReference := .majorReference (m.getReferencePosition (s.data element))
    if s.read majorReference = none then none
    else if (s.data element).isStackMemory then do
      let pTopGroupReference ← s.findGroupToRemove element fuel majorReference
      s.removeFromGroup element pTopGroupReference
    else s.removeFromGroup element majorReference
  else none

/-! ### Stack operations -/

/-- Push an element at a node of the allocator that is not in use. -/
def pushOperandsToStack (s : CompilerStack) (node : ℕ) (element : StackElement) :
    CompilerStack :=
  { s with
    elements := Function.update s.elements node { element with sibling := s.stack.getLast? }
    stack := s.stack ++ [node] }

/-- Push an element and list it. -/
def pushAndUpdateReference (m : ReferenceMap) (fuel : ℕ) (s : CompilerStack) (node : ℕ)
    (element : StackElement) : Option CompilerStack :=
  (s.pushOperandsToStack node element).addReference m fuel node

/-- Remove the last element from its list and from the stack. -/
def popAndUpdateReference (m : ReferenceMap) (fuel : ℕ) (s : CompilerStack) :
    Option CompilerStack := do
  let last ← s.stack.getLast?
  let s ← s.removeReference m fuel last
  some { s with stack := s.stack.dropLast }

/-- Overwrite an element that keeps its place in the tree of deferred actions. -/
def replaceInCondenseTree (s : CompilerStack) (originalElement : ℕ) (newElement : StackElement) :
    CompilerStack :=
  { s with
    elements := Function.update s.elements originalElement
      { newElement with
        parent := (s.elements originalElement).parent
        sibling := (s.elements originalElement).sibling } }

/-- Overwrite an element, and move it to its new list. -/
def replaceAndUpdateReference (m : ReferenceMap) (fuel : ℕ) (s : CompilerStack)
    (originalElement : ℕ) (newElement : StackElement) : Option CompilerStack := do
  let s ← s.removeReference m fuel originalElement
  (s.replaceInCondenseTree originalElement newElement).addReference m fuel originalElement

end CompilerStack

end WasmCompiler
