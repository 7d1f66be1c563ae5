import ShaderGraph.Files.Node
import ShaderGraph.Material

/-
Material defaults in files.
-/
namespace ShaderGraph

open Ron

namespace FallbackMaterial

/-- What is known of a fallback material while it is read. -/
structure Draft where
  color : Option Vec3
  roughness : Option Binary32
  metalness : Option Binary32
  side : Option Side

def fields : List (Reader.Field Draft) := [
  .make "color" (·.color) (fun d a => { d with color := some a }) (Vec3.read false),
  .make "roughness" (·.roughness) (fun d a => { d with roughness := some a }) Reader.float,
  .make "metalness" (·.metalness) (fun d a => { d with metalness := some a }) Reader.float,
  .make "side" (·.side) (fun d a => { d with side := some a }) (Reader.word "Side" Side)]

def read : Reader FallbackMaterial :=
  let name := "FallbackMaterial"
  Reader.record name fields ⟨none, none, none, none⟩ fun d => do
    return ⟨← Reader.required name "color" d.color, ← Reader.required name "roughness" d.roughness,
      ← Reader.required name "metalness" d.metalness, ← Reader.required name "side" d.side⟩

end FallbackMaterial

namespace MaterialDefaults

structure Draft where
  baseColor : Option Vec3
  emissive : Option Vec3
  roughness : Option Binary32
  metalness : Option Binary32
  normal : Option Vec3
  opacity : Option Binary32
  fallback : Option FallbackMaterial

def fields : List (Reader.Field Draft) := [
  .make "base_color" (·.baseColor) (fun d a => { d with baseColor := some a }) (Vec3.read false),
  .make "emissive" (·.emissive) (fun d a => { d with emissive := some a }) (Vec3.read false),
  .make "roughness" (·.roughness) (fun d a => { d with roughness := some a }) Reader.float,
  .make "metalness" (·.metalness) (fun d a => { d with metalness := some a }) Reader.float,
  .make "normal" (·.normal) (fun d a => { d with normal := some a }) (Vec3.read false),
  .make "opacity" (·.opacity) (fun d a => { d with opacity := some a }) Reader.float,
  .make "fallback_material" (·.fallback) (fun d a => { d with fallback := some a })
    FallbackMaterial.read]

/-- The draft with the standard values where it has none. -/
def ofDraft (d : Draft) : MaterialDefaults where
  baseColor := d.baseColor.getD standard.baseColor
  emissive := d.emissive.getD standard.emissive
  roughness := d.roughness.getD standard.roughness
  metalness := d.metalness.getD standard.metalness
  normal := d.normal.getD standard.normal
  opacity := d.opacity.getD standard.opacity
  fallback := d.fallback.getD standard.fallback

/-- Reads defaults; what is not written keeps its standard value. -/
def read : Reader MaterialDefaults :=
  Reader.record "MaterialDefaults" fields ⟨none, none, none, none, none, none, none⟩ fun d =>
    pure (ofDraft d)

def ofText (text : String) : Except ReadError MaterialDefaults := Reader.document read text

end MaterialDefaults

end ShaderGraph
