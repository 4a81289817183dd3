import Semnav.Adapters.Language
import Semnav.Lsp.Supervisor

/-!
# Server processes

The processes of language servers as the operating system and this program see them
(`src/lsp/server.rs`), and the factory that starts the real ones (`RealServerFactory` of
`src/lsp/supervisor.rs`).  How a server is launched and provisioned is left out.
-/

namespace Semnav.Lsp

open Semnav.ForStd Semnav.Adapters

/-- A process that was spawned as a language server. -/
structure ServerProcess where
  language : String
  /-- The supervisor that started it. -/
  owner : Nat
  running : Bool
  /-- Was it handed to the shutdown escalation, or dropped, so that its stdin is closed? -/
  released : Bool
deriving DecidableEq

/-- Hand a process over. -/
def release (server : ServerId) (servers : List ServerProcess) : List ServerProcess :=
  servers.modify server fun p => { p with released := true }

/-- `adapter_for_language`. -/
def adapterForLanguage (adapters : List LanguageAdapter) (language : String) :
    Option LanguageAdapter :=
  adapters.find? fun adapter => adapter.languageName == language

/-- The commands of the factory, with the texts of their errors. -/
inductive FactoryCmd : Type → Type where
  | provision : FactoryCmd (Except String Unit)
  /-- `ServerProcess::spawn`. -/
  | spawn : FactoryCmd (Except String ServerId)
  /-- The `initialize` handshake. -/
  | handshake (server : ServerId) : FactoryCmd (Except String Unit)
  | dropServer (server : ServerId) : FactoryCmd Unit

structure RealServerFactory where
  language : String
  /-- `builtin_adapters()`. -/
  adapters : List LanguageAdapter

/-- Provision, spawn and handshake. -/
def RealServerFactory.start (factory : RealServerFactory) :
    Prog FactoryCmd (Except StartError StartedServer) :=
  match adapterForLanguage factory.adapters factory.language with
  | none => pure (.error (.provision ("no adapter for " ++ factory.language)))
  | some _ => do
    match ← Prog.perform .provision with
    | .error e => pure (.error (.provision ("provision: " ++ e)))
    | .ok () =>
      match ← Prog.perform .spawn with
      | .error e => pure (.error (.spawnOrInit ("spawn: " ++ e)))
      | .ok server =>
        match ← Prog.perform (.handshake server) with
        | .error e =>
          -- The process goes out of scope.
          Prog.perform (.dropServer server)
          pure (.error (.spawnOrInit ("initialize: " ++ e)))
        | .ok () =>
          pure (.ok ⟨server, server, some server, rfl, fun _ h => (Option.some.inj h).symm⟩)

/-- What a command of the factory does, where `outcome` says whether it succeeds. -/
def FactoryCmd.exec {β : Type} (outcome : Except String Unit) (language : String) (owner : Nat)
    (servers : List ServerProcess) : FactoryCmd β → β × List ServerProcess
  | .provision => (outcome, servers)
  | .spawn =>
    match outcome with
    | .error e => (.error e, servers)
    | .ok () => (.ok servers.length, servers ++ [⟨language, owner, true, false⟩])
  | .handshake _ => (outcome, servers)
  | .dropServer server => ((), release server servers)

end Semnav.Lsp
