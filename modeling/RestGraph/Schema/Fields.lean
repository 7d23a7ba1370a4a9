import RestGraph.Naming.Entry
import RestGraph.Selection.Collect

/-!
# Visible fields

The properties of a container in the order of the output, with the names they get there. A property
that closes a cycle has no name; it is not declared.
-/

namespace RestGraph

structure VisibleField where
  jsonName : String
  prop : Nat
  name : Option String
  comment : Option String

/-- Name the properties one after the other; `taken` are the names given before. -/
def nameFields (g : Graph) (taken : List String) : List (String × Nat) → List VisibleField
  | [] => []
  | (jsonName, prop) :: rest =>
    match (g.node prop).kind with
    | .property .circular _ => ⟨jsonName, prop, none, none⟩ :: nameFields g taken rest
    | _ =>
      let guarded := Naming.guardReserved jsonName
      let name := Naming.unique taken guarded.name
      ⟨jsonName, prop, some name, guarded.comment⟩ :: nameFields g (name :: taken) rest

/-- The fields of a container, of all its properties or of the selected ones. -/
def visibleFields (g : Graph) (container : Nat) (selection : Option Collection) :
    List VisibleField :=
  nameFields g [] ((g.node container).props.filter fun (_, prop) =>
    selection.all fun c => c.isSelected prop)

def placeholderComment : String := "element type could not be derived"

/-- Whether the innermost element is a stand-in. -/
def hasPlaceholder (g : Graph) (i : Nat) : Bool :=
  match (g.node (g.elementOf i)).kind with
  | .scalar _ placeholder => placeholder
  | .property (.scalar _ placeholder) _ => placeholder
  | _ => false

end RestGraph
