import VideoConfig.Catalog
import VideoConfig.Record

/-!
# Descriptors of implementations

What an implementation reports about itself: a record with an attachment for each of
its decoders, encoders and filters, and live values for properties that have no
place in a record. Keys are texts, ordered character by character by their code
points. Live values are kept in the order in which they were added.
-/

namespace VideoConfig

def insertByKey {item : Type} (key : item -> String) (new : item) : List item -> List item
  | [] => [new]
  | first :: rest =>
      if key first < key new then
        first :: insertByKey key new rest
      else
        new :: first :: rest

/-- A list in the order of the keys of its items. Items with the same key keep their
order. -/
def inKeyOrder {item : Type} (key : item -> String) (items : List item) : List item :=
  items.foldr (insertByKey key) []

structure Descriptor where
  name : String
  record : Record
  live : List (String × Value)

namespace Descriptor

def new (name : String) : Descriptor :=
  { name, record := Record.new Catalog.implementationDescription, live := [] }

def addLive (descriptor : Descriptor) (name : String) (value : Value) : Descriptor :=
  { descriptor with live := descriptor.live ++ [(name, value)] }

def liveValues (descriptor : Descriptor) (name : String) : List Value :=
  (descriptor.live.filter fun entry => entry.1 == name).map Prod.snd

def liveNames (descriptor : Descriptor) : List String :=
  inKeyOrder id (descriptor.live.map Prod.fst).eraseDups

def liveProperties (descriptor : Descriptor) : List (String × List Value) :=
  descriptor.liveNames.map fun name => (name, descriptor.liveValues name)

end Descriptor
end VideoConfig
