import HttpExchange.Http.Assembly

/-! # Pipelined requests

Requests may follow each other without a gap, and pieces may be cut anywhere. The octets behind a
finished request open the next one, so none is lost and none is read twice. -/

namespace HttpExchange

/-- The requests finished so far and the one in the making. -/
structure Pipeline where
  finished : List Request
  current : Assembly
  deriving DecidableEq, Repr

namespace Pipeline

def empty : Pipeline := ⟨[], .empty⟩

/-- All requests that octets hold from their start, and what is left in the making. -/
def ofBytes (octets : Bytes) : Pipeline :=
  let a := Assembly.empty.feed octets
  match _taken : a.finish? with
  | none => ⟨[], a⟩
  | some (request, rest) =>
    let later := ofBytes rest
    ⟨request :: later.finished, later.current⟩
termination_by octets.length
decreasing_by exact Assembly.finish?_feed_empty_length_lt ‹_›

/-- A piece arrives; every request that it completes is taken out. -/
def feed (p : Pipeline) (piece : Bytes) : Pipeline :=
  let a := p.current.feed piece
  match a.finish? with
  | none => ⟨p.finished, a⟩
  | some (request, rest) =>
    let later := ofBytes rest
    ⟨p.finished ++ request :: later.finished, later.current⟩

def feedAll (p : Pipeline) (pieces : List Bytes) : Pipeline := pieces.foldl feed p

end Pipeline

end HttpExchange
