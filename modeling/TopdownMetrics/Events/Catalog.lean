import TopdownMetrics.Events.Event

/-!
# The events of an architecture by name

The first event of a name is kept.  Names can also be looked up without regard to
case; then the first event with that name in capitals is found.
-/

namespace TopdownMetrics

structure EventCatalog where
  events : Std.TreeMap String Event := ∅
  /-- The first registered name for each name in capitals. -/
  capitals : Std.TreeMap String String := ∅

namespace EventCatalog

/-- Adds an event, unless its name is taken; says whether it was added. -/
def register (c : EventCatalog) (e : Event) : EventCatalog × Bool :=
  if c.events.contains e.name then (c, false)
  else
    ({ events := c.events.insert e.name e
       capitals := c.capitals.insertIfNew (Text.upper e.name) e.name }, true)

def lookup? (c : EventCatalog) (name : String) : Option Event :=
  c.events[name]?

/-- The event of the name, or else the one whose name differs in case only. -/
def lookupAnyCase? (c : EventCatalog) (name : String) : Option Event :=
  (c.lookup? name).or ((c.capitals[Text.upper name]?).bind c.lookup?)

def contains (c : EventCatalog) (name : String) : Bool :=
  (c.lookupAnyCase? name).isSome

def size (c : EventCatalog) : Nat :=
  c.events.size

end EventCatalog

end TopdownMetrics
