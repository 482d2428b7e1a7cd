/-!
# Keys of the tree's own

The merged tree keeps some facts about objects beside their properties, under keys that no source
may spell out.
-/

namespace FusionTree.Key

/-- Holds the `@` properties of an object. -/
def metaProperties : String := "__meta"

/-- Holds the prototypes by name. -/
def prototypes : String := "__prototypes"

/-- Holds the plain value of an object. -/
def value : String := "__value"

/-- Holds the code of an embedded expression. -/
def eel : String := "__eelExpression"

/-- Holds the type of an object. -/
def objectType : String := "__objectType"

/-- Holds the name of the prototype that a prototype inherits from. -/
def parent : String := "__prototypeObjectName"

/-- Holds the names of all prototypes that a prototype inherits from. -/
def chain : String := "__prototypeChain"

/-- Marks an object that inherits nothing. -/
def stop : String := "__stopInheritanceChain"

/-- The keys that only the tree itself may write. -/
def reserved : List String :=
  [metaProperties, prototypes, stop, parent, chain, value, eel, objectType]

def isReserved (key : String) : Bool :=
  reserved.contains key

/-- The property that makes an object of a prototype private. -/
def privateProperty : String := "private"

end FusionTree.Key
