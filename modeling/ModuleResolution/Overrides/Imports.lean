import ModuleResolution.Overrides
import ModuleResolution.Platform

namespace ModuleResolution

namespace Registry

def declared (r : Registry) (id : ModuleId) : DependencySet :=
  Ascending.ofList <| (r.module id).imports.map fun i =>
    let target := r.module i.target
    ⟨target.name, target.version, i.optional, i.exported⟩

def link (p : Platform) (built : Registry × List Import) (d : Dependency) :
    Registry × List Import :=
  let (r, id) := built.1.ensure p d.coordinates
  if built.2.any (·.target == id) then (r, built.2)
  else (r, built.2 ++ [⟨id, d.optional, d.exported, none⟩])

def linkAll (r : Registry) (p : Platform) (deps : DependencySet) : Registry × List Import :=
  deps.toList.foldl (link p) (r, [])

def overrideImports (r : Registry) (p : Platform) (o : Overrides) (id : ModuleId)
    (c : Coordinates) : Registry :=
  if o.hasRule c then
    let (linked, imports) := r.linkAll p (o.apply c (r.declared id))
    linked.modify id (·.setImports imports)
  else
    r

def applyOverrides (r : Registry) (p : Platform) (o : Overrides) (id : ModuleId)
    (c : Coordinates) : Registry × Bool :=
  (r.overrideImports p o id c, o.hasRule c)

end Registry

end ModuleResolution
