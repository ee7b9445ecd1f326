import GridRoute.Position

/-!
The surroundings of an agent, as far as a search asks for them.
-/

namespace GridRoute

/-- What an agent learns from its surroundings: where it stands, which places it could enter and how
much rubble lies there. -/
structure Terrain where
  agent : Position
  traversable : Position → Bool
  rubble : Position → Int

end GridRoute
