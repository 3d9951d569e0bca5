import EntityScripts.Script.Accessors
import EntityScripts.Script.Constructor
import EntityScripts.Script.Deserializer
import EntityScripts.Script.Destructor
import EntityScripts.Script.Labels
import EntityScripts.Script.Serializer

/-!
Everything that is generated for one entity.
-/
namespace EntityScripts.Script

def generate (p : Plan) (stamp : String) : List Snippet := [
  ⟨.create, [(constructor p).block stamp]⟩,
  ⟨.serialize, [(serializer p).block stamp]⟩,
  ⟨.deserialize, [(deserializer p).block stamp]⟩,
  ⟨.destroy, [(destructor p).block stamp]⟩,
  ⟨.getters, p.fields.map fun f => (getter p f).block stamp⟩,
  ⟨.setters, p.fields.map fun f => (setter p f).block stamp⟩,
  ⟨.labels, [⟨none, (LabelMap.ofPlan p).text⟩]⟩]

end EntityScripts.Script
