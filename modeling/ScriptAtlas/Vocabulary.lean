import ScriptAtlas.Text.Basic

/-! # Vocabulary — the fixed words of the script language

    Keywords, storage scopes, thread roles and engine functions are closed
    tables, looked up without regard to ASCII letter case.  What a workspace
    adds to them comes from its settings. -/

namespace ScriptAtlas

open Text (lower)

/-- The storage that qualifies a variable, as in `local.x` or `level.y`. -/
inductive Scope where
  | threadLocal
  | level
  | game
  | group
  | parm
  | self
  | owner
deriving DecidableEq, Repr

namespace Scope

/-- The word that is written before the dot. -/
def word : Scope → Text
  | threadLocal => "local".toList
  | level => "level".toList
  | game => "game".toList
  | group => "group".toList
  | parm => "parm".toList
  | self => "self".toList
  | owner => "owner".toList

/-- Every scope. -/
def all : List Scope := [threadLocal, level, game, group, parm, self, owner]

/-- The scope a word names, in any letter case. -/
def ofWord? (w : Text) : Option Scope := all.find? fun s => s.word == lower w

/-- A `local` variable lives and dies with its thread. -/
def isThreadScoped (s : Scope) : Bool := s == threadLocal

/-- The scopes whose variables belong to the scripts, not to an entity or the engine. -/
def isScriptOwned (s : Scope) : Bool := s == threadLocal || s == level || s == game

/-- The name of a variable with its scope in front. -/
def qualify (s : Scope) (name : Text) : Text := s.word ++ '.' :: name

end Scope

/-- How the engine treats a thread by its name alone. -/
inductive ThreadRole where
  | plain
  | entryPoint
  | engineCallback
deriving DecidableEq, Repr

namespace Vocabulary

/-- The reserved words. -/
def keywords : List Text :=
  ["if", "else", "while", "for", "do", "switch", "case", "default", "break", "continue",
   "end", "goto", "thread", "waitthread", "exec", "waitexec", "try", "catch", "throw",
   "nil", "null", "true", "false", "makearray", "endarray"].map String.toList

/-- Threads the engine starts. -/
def entryPoints : List Text := ["main", "start", "init", "setup", "spawn"].map String.toList

/-- Threads the engine calls back. -/
def engineCallbacks : List Text :=
  ["pain", "death", "killed", "damage", "touch", "use", "activate", "trigger", "idle",
   "attack", "think", "blocked", "anim_done", "respawn", "connected", "disconnected",
   "intermission", "gameover"].map String.toList

/-- Functions and commands the engine offers. -/
def builtins : List Text :=
  [
   -- flow and timing
   "wait", "waitframe", "waittill", "delaythrow", "pause", "commanddelay",
   -- printing
   "print", "println", "dprintln", "iprintln", "iprintlnbold", "iprintln_noloc",
   "iprintlnbold_noloc", "centerprint", "locprint", "conprintf", "error",
   -- conversions and mathematics
   "int", "float", "string", "abs", "sin", "cos", "tan", "atan", "sqrt", "pow",
   "randomint", "randomfloat", "vector_length", "vector_normalize", "vector_dot",
   "vector_cross", "vector_scale", "vector_add", "vector_subtract", "vector_within",
   "vector_toangles", "angles_toforward", "angles_toleft", "angles_toup",
   "angles_pointat", "typeof", "isalive", "isarray", "isdefined", "size",
   -- engine variables and level state
   "getcvar", "setcvar", "getdate", "gettime", "gettimezone", "spawn", "delete",
   "remove", "trigger", "settargetname", "targetname", "gettagposition",
   "gettagangles", "getentbyentnum", "self_entity",
   -- entity commands
   "hide", "show", "solid", "notsolid", "bind", "unbind", "glue", "unglue",
   "playsound", "loopsound", "stoploopsound", "stopsound", "moveto", "movedir",
   "moveup", "movedown", "rotatex", "rotatey", "rotatez", "rotatexup",
   "rotateyup", "rotatezup", "setsize", "setthread", "setorigin", "setangles",
   "anim", "playanim", "damage", "kill", "health", "model", "scale", "origin",
   "angles", "time", "speed", "light", "lightoff", "lighton", "physics_on",
   "physics_off", "stopwatch", "cansee", "canseenoents", "getcontrollerangles",
   "disconnect", "stufftext", "teleport", "giveweapon", "takeall", "useweapon",
   "drawhud", "earthquake", "fadeout", "fadein", "cinematic", "nocinematic",
   "huddraw_shader", "huddraw_align", "huddraw_rect", "huddraw_virtualsize",
   "huddraw_color", "huddraw_alpha", "huddraw_string", "huddraw_font",
   "music", "soundtrack", "forcemusic", "exploder", "missionfailed",
   "addobjective", "setcurrentobjective", "team_win", "teamwin", "visible",
   "letterbox", "noletterbox", "freezeplayer", "releaseplayer"].map String.toList

/-- Statements after which control never reaches the next line. -/
def flowTerminators : List Text := ["end", "goto", "break", "continue"].map String.toList

/-- Keywords that may take a body without braces on the following line. -/
def controlHeaders : List Text := ["if", "else", "while", "for"].map String.toList

/-- Whether a word is reserved. -/
def isKeyword (w : Text) : Bool := keywords.contains (lower w)

/-- Whether the engine offers a function of that name. -/
def isBuiltin (w : Text) : Bool := builtins.contains (lower w)

/-- Whether a word names a storage scope. -/
def isScope (w : Text) : Bool := (Scope.ofWord? w).isSome

/-- Whether a statement that starts with the word never falls through. -/
def isFlowTerminator (w : Text) : Bool := flowTerminators.contains (lower w)

/-- Whether a statement that starts with the word may take a body without braces. -/
def isControlHeader (w : Text) : Bool := controlHeaders.contains (lower w)

/-- Characters an identifier may start with. -/
def isIdentifierStart (c : Char) : Bool := c.isAlpha || c == '_'

/-- Characters of an identifier. -/
def isIdentifierChar (c : Char) : Bool := c.isAlphanum || c == '_'

/-- Characters of a script path. -/
def isPathChar (c : Char) : Bool :=
  isIdentifierChar c || c == '/' || c == '\\' || c == '.' || c == '-'

end Vocabulary

namespace ThreadRole

/-- The role that a thread's name gives it. -/
def ofName (name : Text) : ThreadRole :=
  if Vocabulary.entryPoints.contains (lower name) then entryPoint
  else if Vocabulary.engineCallbacks.contains (lower name) then engineCallback
  else plain

/-- Whether the engine runs the thread on its own. -/
def isEngineInvoked (r : ThreadRole) : Bool := r != plain

end ThreadRole

end ScriptAtlas
