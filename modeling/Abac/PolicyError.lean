import Abac.Declaration.Fault
import Abac.GroupExpr.Token
import Abac.Rule.Fault

/-!
Why a policy cannot be compiled, found or loaded, and how it is said.
-/
namespace Abac

inductive PolicyError where
  /-- The text of a rule has a fault at an offset, counted in characters. -/
  | rule (source : String) (offset : Nat) (fault : Rule.Fault)
  /-- The text of a group expression has a fault at an offset, counted in characters. -/
  | expression (source : String) (offset : Nat) (fault : GroupExpr.Fault)
  | unknownPolicy (name : String)
  | declaration (fault : Declaration.Fault)
  /-- The identifier in a declaration is not a string. -/
  | identifier (found : Json)
  /-- A condition was asked for before anything was checked. -/
  | notChecked
  | notFound (id : String)
  | malformedJson
  | unreadable

namespace PolicyError

def faultText (source : String) (offset : Nat) (message : String) : String :=
  "'" ++ source ++ "' 位置 " ++ String.ofList (Digits.ofNat offset) ++ ": " ++ message

/-- The text of an error; the two that come from outside have none of their own. -/
def message? : PolicyError → Option String
  | rule source offset fault => some ("规则解析失败: " ++ faultText source offset fault.message)
  | expression source offset fault =>
    some ("组表达式解析失败: " ++ faultText source offset fault.message)
  | unknownPolicy name => some ("组表达式引用了未声明的策略: " ++ name)
  | declaration fault => some ("无效的策略声明: " ++ fault.message)
  | identifier found => some ("无效的策略声明: 策略 id 必须是字符串: " ++ found.text)
  | notChecked => some "非法状态: 必须先调用 check 再读取 condition"
  | notFound id => some ("策略未找到: " ++ id)
  | malformedJson => none
  | unreadable => none

end PolicyError

end Abac
