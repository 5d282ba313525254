/-!
The text that starts every bundle: a registry of module factories, and the registry object
`mr` that the registrations and lookups of a bundle use.
-/

namespace ModuleBundler.Bundle

/-- The lines of the registry program. A lookup runs the factory afresh, and the first
registration of a name is the one that stays. -/
def bootstrapLines : List String := [
  "class ModuleRegistry \x7b",
  "",
  "    registryMap;",
  "",
  "    constructor() \x7b",
  "        this.registryMap = new Map();",
  "    \x7d",
  "",
  "    register(name, factory) \x7b",
  "        if (!this.registryMap.has(name)) \x7b",
  "            this.registryMap.set(name, factory);",
  "        \x7d",
  "    \x7d",
  "",
  "    get(name) \x7b",
  "        if (!this.registryMap.has(name)) \x7b",
  "            throw new Error('Module not registered: ' + name);",
  "        \x7d",
  "        // every lookup runs the factory afresh",
  "        return (this.registryMap.get(name))();",
  "    \x7d",
  "\x7d",
  "",
  "let mr = new ModuleRegistry();"]

/-- The registry program, each line ended by a newline. -/
def bootstrap : String :=
  String.join (bootstrapLines.map (· ++ "\n"))

end ModuleBundler.Bundle
