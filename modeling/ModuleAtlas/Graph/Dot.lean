import ModuleAtlas.Graph.Basic

/-!
# Graph drawings

Graphs in the DOT language. With a focus only the edges that touch a file whose name contains it are
drawn, provided there are any.
-/

namespace ModuleAtlas.Graph

/-- A name as it stands in quotes. -/
def escapeName (name : String) : String := Text.replaceAll "\"" "\\\"" name

/-- The edges that touch a file whose name contains a text. -/
def touching (focus : String) (edges : List (File × File)) : List (File × File) :=
  edges.filter fun edge => Text.contains focus edge.1.name || Text.contains focus edge.2.name

/-- The names and the edges that are drawn. -/
def selection (graph : Graph) (focus : String) : List String × List (File × File) :=
  let focused := if focus.isEmpty then [] else touching focus graph.edges
  if focused.isEmpty then (graph.nodes.map (·.name), graph.edges)
  else (Text.sortedSet (focused.flatMap fun edge => [edge.1.name, edge.2.name]), focused)

/-- The line of a node. -/
def nodeLine (name : String) : String := "  \"" ++ escapeName name ++ "\";"

/-- The line of an edge. -/
def edgeLine (edge : File × File) : String :=
  "  \"" ++ escapeName edge.1.name ++ "\" -> \"" ++ escapeName edge.2.name ++ "\";"

/-- The drawing of a graph. -/
def dot (graph : Graph) (focus : String) : String :=
  let (names, edges) := graph.selection focus
  let lines :=
    ["digraph Dependencies \x7b", "  rankdir=LR;"] ++ names.map nodeLine ++ edges.map edgeLine
      ++ ["\x7d"]
  Text.join "\n" lines ++ "\n"

end ModuleAtlas.Graph
