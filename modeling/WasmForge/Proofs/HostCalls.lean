import WasmForge.Proofs.ImportLinking
import WasmForge.Proofs.Refinement

/-!
# What a call of the host does

Between a module and a host function stands a contract. A machine has numbers of four
types and references besides, and the host has two types of numbers, so the arguments
may not cross the border, and the function may return what nobody asked for.
`HostImport.Ends` lists how a call can end, for any arguments and any data. The order
of things is what matters. All arguments are converted before the function is called,
so a call that fails at one of them has had no effect. The result is looked at when
the function has returned, so a call that fails there has had all of its effect.

That the function is called once, or not at all, cannot be seen from the data. It is
said of the same import with a function that notes its calls
(`HostImport.recording`): exactly one call is noted, with the converted arguments,
or none.

Which results are accepted depends on the module's type for the import and on the
bridge's signature, which may disagree. In a module that was emitted for the imports
of the bridge they are the same, and what is accepted is the declared type
(`HostImport.Honours`). This is the one place where it matters that an engine lists
what the bytes say (`Engine.Reads`); the machine does.
-/

namespace WasmForge

variable {σ : Type}

/-- The value has no counterpart on the other side of the border. -/
def NumValue.Foreign (v : NumValue) : Prop := v.type ≠ .i32 ∧ v.type ≠ .f32

/-- The wording for a result that is not accepted. -/
def refusalText (module field : String) (returned : Option Value) (expected : Option ValueType) :
    String :=
  "host function " ++ module ++ "." ++ field ++ " returned "
    ++ Trap.optionText (returned.map Value.text)
    ++ ", expected " ++ Trap.optionText (expected.map Trap.typeText)

namespace HostImport

/-- The import with a function that also notes each call it receives. -/
def recording (h : HostImport σ) : HostImport (σ × List HostCall) :=
  ⟨h.module, h.field, h.type, h.expected, h.function.recording h.module h.field⟩

/-- How a call ends, and which call was noted besides those noted before. -/
inductive Ends (h : HostImport σ) (args : List NumValue) (data : σ) (calls : List HostCall) : Prop
  | accepted {values : List Value} {data' : σ} {returned : Option Value} {results : List NumValue}
      (hargs : args = values.map Value.toNum)
      (hfunction : h.function data values = (data', returned))
      (hcall : h.call args data = .done results data')
      (hnoted : h.recording.call args (data, calls)
        = .done results (data', calls ++ [⟨h.module, h.field, values⟩]))
  | refused {values : List Value} {data' : σ} {returned : Option Value} {t : Trap}
      (hargs : args = values.map Value.toNum)
      (hfunction : h.function data values = (data', returned))
      (hmessage : t.message = refusalText h.module h.field returned h.expected)
      (hcall : h.call args data = .trapped t data')
      (hnoted : h.recording.call args (data, calls)
        = .trapped t (data', calls ++ [⟨h.module, h.field, values⟩]))
  | unsupported {before : List Value} {v : NumValue} {after : List NumValue} {t : Trap}
      (hargs : args = before.map Value.toNum ++ v :: after)
      (hkind : v.Foreign)
      (hmessage : t.message = "unsupported host value " ++ v.text)
      (hcall : h.call args data = .trapped t data)
      (hnoted : h.recording.call args (data, calls) = .trapped t (data, calls))

end HostImport

namespace Bridge

variable {b : Bridge σ}

end Bridge

/-- What an engine lists for the bytes is what they say. -/
def Engine.Reads {Loaded Live : Type} (e : Engine σ Loaded Live) (bytes : List UInt8) : Prop :=
  ∀ m, e.load bytes = .ok m →
    ∃ module, Module.decode? bytes = some module ∧ e.imports m = module.importTypes

namespace Bridge

section Engine

variable {b : Bridge σ} {Loaded Live : Type} {e : Engine σ Loaded Live} {bytes : List UInt8}
  {h : HostImport σ}

/-- A host function that was linked for a module. -/
def Linked (b : Bridge σ) (e : Engine σ Loaded Live) (bytes : List UInt8) (h : HostImport σ) :
    Prop :=
  ∃ m linked, e.load bytes = .ok m ∧ b.link [] (e.imports m) = .ok linked ∧ h ∈ linked

/-- It stands for an import that the engine lists. -/
theorem Linked.links (hlinked : b.Linked e bytes h) :
    ∃ m, e.load bytes = .ok m ∧ ∃ i ∈ e.imports m, b.Links i h := by
  obtain ⟨m, linked, hload, hlink, hmem⟩ := hlinked
  obtain ⟨i, hi, hhost⟩ := (link_ok hlink).1 h hmem
  obtain ⟨hnames, htype⟩ := hostFor_ok hhost
  rcases link_mem hlink h hmem with hnone | ⟨hexpected, hresolve⟩
  · cases hnone
  · exact ⟨m, hload, i, hi, Prod.mk.inj hnames, htype, hexpected, hresolve⟩

end Engine

end Bridge

namespace Sample

end Sample

end WasmForge
