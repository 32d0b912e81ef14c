/-! The import path a renamed project is published under: a scoped path keeps its scope and
takes the new name, anything else becomes the new name. -/
namespace Monorepo.Workspace

/-- `@scope/old` becomes `@scope/<new name>`; a path without a scope becomes `<new name>`. -/
def deriveImportPath (old newName : String) : String :=
  match old.toList with
  | '@' :: rest =>
    match (String.ofList rest).splitOn "/" with
    | scope :: _ :: _ => "@" ++ scope ++ "/" ++ newName
    | _ => newName
  | _ => newName

end Monorepo.Workspace
