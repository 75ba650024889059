import TopdownMetrics.Files.Access

/-!
# Sources

A source is named by a path or by a `file` URL and holds UTF-8 text.
-/

namespace TopdownMetrics

inductive SourceError where
  | unreadable (source : String)
  /-- The bytes of the source are no UTF-8 text. -/
  | notText (source : String)
  deriving DecidableEq, Repr

def SourceError.message : SourceError → String
  | .unreadable source => "Failed to read " ++ source
  | .notText source => "Source is not valid UTF-8: " ++ source

namespace Source

variable {m : Type → Type} [Monad m] [FileAccess m]

def path (source : String) : String :=
  match Text.dropPrefix? "file://".toList source.toList with
  | some path => String.ofList path
  | none => source

def decode (source : String) : Option ByteArray → Except SourceError String
  | none => .error (.unreadable (path source))
  | some content =>
    match String.fromUTF8? content with
    | some text => .ok text
    | none => .error (.notText (path source))

@[simp]
theorem decode_toUTF8 (source text : String) : decode source (some text.toUTF8) = .ok text := by
  have hbytes : String.fromUTF8? text.toUTF8 = some text := dif_pos text.isValidUTF8
  simp only [decode, hbytes]

def read (source : String) : m (Except SourceError String) :=
  return decode source (← FileAccess.read? (path source))

def isAvailable (source : String) : m Bool :=
  return (← FileAccess.kind? (path source)) == some .file

end Source

end TopdownMetrics
