import Monorepo.Path

/-! The two grammars a source file is read with: plain TypeScript, and TypeScript with JSX, which
also reads JavaScript. The file extension picks one. -/
namespace Monorepo.Script

/-- The grammar of a source file. -/
inductive Language where
  | typescript
  | tsx
  deriving DecidableEq, Repr

/-- The grammar for a file extension: `ts`, `mts` and `cts` are TypeScript; `tsx`, `js`, `jsx`,
`mjs` and `cjs` take the JSX grammar. -/
def Language.ofExtension (ext : String) : Option Language :=
  if ext == "ts" || ext == "mts" || ext == "cts" then some .typescript
  else if ext == "tsx" || ext == "js" || ext == "jsx" || ext == "mjs" || ext == "cjs" then some .tsx
  else none

/-- The grammar for a file, refusing files that are no source files. -/
def Language.forPath (p : Path) : Outcome Language :=
  match p.extension.bind Language.ofExtension with
  | some l => .ok l
  | none => .error (.invalidInput (p.render ++ " is not a JavaScript or TypeScript file"))

end Monorepo.Script
