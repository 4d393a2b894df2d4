import Abac.Digits

/-!
What can be wrong with the text of a rule, and how it is said.
-/
namespace Abac.Rule

inductive Fault where
  | keyNeedsAssignment
  | trailing (c : Char)
  | keyInValue (key : String)
  | keyNotLast (key : String)
  | missingAttribute
  | keyWithoutAttribute (key : String)
  | invalidPath
  | missingComparator
  | nestedTooDeep
  | missingExpression
  | unexpected (c : Char)
  | invalidNumber (text : String)
  | unclosedString
  | unclosedPattern
  | emptyPattern
  | arraySeparator
  | invalidObjectKey
  | objectSeparator
  | missing (c : Char)
deriving DecidableEq, Repr

namespace Fault

def quote (text : String) : String := "'" ++ text ++ "'"

def message : Fault → String
  | keyNeedsAssignment => "操作符键只能使用 '=' 赋值"
  | trailing c => "多余的字符 " ++ quote c.toString
  | keyInValue key => "值表达式中不允许操作符键 " ++ quote key
  | keyNotLast key => "操作符键 " ++ quote key ++ " 只能出现在路径末尾"
  | missingAttribute => "缺少属性名"
  | keyWithoutAttribute key => "操作符键 " ++ quote key ++ " 缺少所属属性"
  | invalidPath => "无效的属性路径"
  | missingComparator => "缺少比较符"
  | nestedTooDeep => "嵌套层数超过上限"
  | missingExpression => "缺少值表达式"
  | unexpected c => "意外的字符 " ++ quote c.toString
  | invalidNumber text => "无效的数字 " ++ quote text
  | unclosedString => "字符串未闭合"
  | unclosedPattern => "正则表达式未闭合"
  | emptyPattern => "正则表达式不能为空"
  | arraySeparator => "数组缺少 ',' 或 ']'"
  | invalidObjectKey => "无效的对象键"
  | objectSeparator => "对象缺少 ',' 或 '\x7d'"
  | missing c => "缺少 " ++ quote c.toString

end Fault

structure Failure where
  fault : Fault
  left : Nat
deriving DecidableEq, Repr

end Abac.Rule
