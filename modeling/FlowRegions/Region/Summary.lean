import FlowRegions.Region.Query

/-!
# Summaries

One-line descriptions of blocks, edges, graphs, regions and analyses.
-/

namespace FlowRegions

namespace Block

def summary (index : Nat) (block : Block) : String :=
  let name := match block.name? with
    | none => "None"
    | some name => Text.quoted name
  s!"BasicBlock(id={index}, name={name}, ninstructions={block.instructions.length})"

end Block

namespace Cfg

def summary (g : Cfg) : String :=
  s!"Function(name={Text.quoted g.name}, blocks={g.blocks.size}, edges={g.edges.size})"

end Cfg

namespace Workspace

variable (ws : Workspace)

def edgeSummary (edge : Edge) : String :=
  s!"CFGEdge({ws.displayName edge.source} -> {ws.displayName edge.target})"

def regionSummary (r : RegionRef) : String :=
  s!"Region(id={ws.number r}, {Text.quoted (ws.regionName r)}, depth={ws.depth r}, " ++
    s!"owned={(ws.owned r).length}, children={(ws.children r).length})"

def analysisSummary (a : AnalysisRef) : String :=
  match ws.analyses[a]? with
  | none => ""
  | some analysis =>
    let name := Text.quoted (ws.graphName analysis.graph)
    s!"RegionInfo(function={name}, regions={(ws.walk analysis.root).length})"

end Workspace

end FlowRegions
