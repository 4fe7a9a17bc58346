import GhostLayer.Grid
import GhostLayer.HaloError
import GhostLayer.Region

namespace GhostLayer

/-!
# Notices

What an exchange reports about its progress.  Notices have no influence on
what it does.
-/

inductive Notice where
  | allocating (capacity maxFace maxEdge fields : Nat)
  | seated (rank : Nat) (grid : Grid)
  | posting (rank : Nat) (kind : Kind) (fields faces edges corners : Nat)
  | receiving (direction : Direction) (peer count : Nat) (region : Region)
  | sending (direction : Direction) (peer count : Nat) (region : Region)
  | sent (rank : Nat) (kind : Kind) (messages : Nat)
  | combined (rank : Nat) (operation : Operation)
  | failed (rank : Nat) (cause : HaloError) (outstanding : Nat)
  | abandoning (outstanding : Nat)
deriving DecidableEq

namespace Notice

inductive Level where
  | trace
  | debug
  | warn
deriving DecidableEq, Repr

def Level.name : Level -> String
  | .trace => "TRACE"
  | .debug => "DEBUG"
  | .warn => "WARN"

def level : Notice -> Level
  | .receiving .. | .sending .. => .trace
  | .failed .. | .abandoning .. => .warn
  | .allocating .. | .seated .. | .posting .. | .sent .. | .combined .. => .debug

def text : Notice -> String
  | .allocating capacity maxFace maxEdge fields =>
      s!"allocating halo buffers: {capacity} elements each (plane {maxFace}, edge {maxEdge}, {fields} fields)"
  | .seated rank grid =>
      s!"rank {rank} at (row {grid.row}, col {grid.col}, plane {grid.plane}) of a {grid.edge}^3 grid"
  | .posting rank kind fields faces edges corners =>
      let receives := faces + edges + corners
      s!"rank {rank}: posting {receives} receives for {kind.label} ({fields} fields, faces {faces}, edges {edges}, corners {corners})"
  | .receiving direction peer count region =>
      s!"recv {direction.label} from rank {peer}: {count} values/field into {region.label}"
  | .sending direction peer count region =>
      s!"send {direction.label} to rank {peer}: {count} values/field from {region.label}"
  | .sent rank kind messages => s!"rank {rank}: {messages} sends for {kind.label} complete"
  | .combined rank operation => s!"rank {rank}: {operation.label} done"
  | .failed rank cause outstanding =>
      s!"rank {rank}: exchange round failed ({cause.message}); draining {outstanding} outstanding receives"
  | .abandoning outstanding =>
      s!"abandoning {outstanding} posted receives after a failed send"

/-- The notice with its level in front. -/
def line (notice : Notice) : String :=
  notice.level.name ++ " " ++ notice.text

end Notice
end GhostLayer
