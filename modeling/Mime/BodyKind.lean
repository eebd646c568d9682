/-! # The kinds of body

An entity has exactly one body at a time; its kind is what messages call it. -/

namespace Mime

/-- Which representation of the body an entity holds. -/
inductive BodyKind where
  | empty
  | byteSource
  | dataSource
  | partList
  | liveStream
deriving DecidableEq, Repr

/-- The name of a kind in messages. -/
def BodyKind.name : BodyKind → String
  | .empty => "empty"
  | .byteSource => "byte source"
  | .dataSource => "data source"
  | .partList => "part list"
  | .liveStream => "live stream"

end Mime
