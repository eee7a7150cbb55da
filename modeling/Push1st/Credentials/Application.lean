import Mathlib.Data.Finset.Basic
import Push1st.Library.ByteText

/-! The application record of `core/credentials/ccredentials.h` and the types of channels
and hooks (`core/config/cconfig.h`). A flag word is the finite set of its flags. -/
namespace Push1st
open ByteText

inductive ChannelType where
  | pub | priv | pres | prot
  deriving DecidableEq, Repr

/-- `ChannelType`: the type of a channel by the start of its name. -/
def channelType (name : Bytes) : ChannelType :=
  if name.take 8 = str "private-" then .priv
  else if name.take 9 = str "presence-" then .pres
  else if name.take 10 = str "protected-" then .prot
  else .pub

inductive HookType where
  | reg | unreg | join | leave | push
  deriving DecidableEq, Repr

/-- `capplication`, less its name and options. -/
structure Application where
  id : Bytes
  secret : Bytes
  channels : Finset ChannelType
  hooks : Finset HookType := ∅
  origins : Finset Bytes := ∅
  endpoints : Finset Bytes := ∅
  deriving DecidableEq

namespace Application

/-- The common part of `IsAllowChannelSession` and `IsAllowChannelToken`, where `valid` is
the verdict of the validator; it is asked last and only for channels that are not public. -/
def isAllowChannel (app : Application) (type : ChannelType) (origin : Bytes) (valid : Bool) :
    Bool :=
  type ∈ app.channels && (app.origins = ∅ || origin ∈ app.origins) && (type = .pub || valid)

def isAllowTrigger (app : Application) (type : ChannelType) (trigger : HookType) : Bool :=
  type ∈ app.channels && trigger ∈ app.hooks

theorem isAllowChannel_iff {app : Application} {type : ChannelType} {origin : Bytes}
    {valid : Bool} : app.isAllowChannel type origin valid = true ↔
      type ∈ app.channels ∧ (app.origins = ∅ ∨ origin ∈ app.origins) ∧
        (type = .pub ∨ valid = true) := by
  simp [isAllowChannel, and_assoc]

end Application

end Push1st
